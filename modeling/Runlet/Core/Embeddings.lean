import Mathlib.Algebra.Ring.Nat
import Runlet.Core.Ssrf

/-!
IPv4 addresses inside IPv6 addresses. An address is a number, and an embedding
says which bits stand before the IPv4 address and how many behind it. The
classifier tests segments; these are shown to be the same bits.
-/

namespace Runlet.Ssrf

/-- `Ipv4Addr::to_bits`. -/
def Ipv4Addr.toBits (ip : Ipv4Addr) : Nat :=
  ((ip.a.toNat * 256 + ip.b.toNat) * 256 + ip.c.toNat) * 256 + ip.d.toNat

/-- `Ipv6Addr::to_bits`. -/
def Ipv6Addr.toBits (ip : Ipv6Addr) : Nat :=
  ((((((ip.s0.toNat * 65536 + ip.s1.toNat) * 65536 + ip.s2.toNat) * 65536 + ip.s3.toNat) * 65536 +
    ip.s4.toNat) * 65536 + ip.s5.toNat) * 65536 + ip.s6.toNat) * 65536 + ip.s7.toNat

inductive Embedding where
  | mapped
  | compatible
  | sixToFour
  | nat64
  deriving DecidableEq, Repr

/-- The bits before the IPv4 address. -/
def Embedding.before : Embedding → Nat
  | .mapped => 0xffff
  | .compatible => 0
  | .sixToFour => 0x2002
  | .nat64 => 0x0064ff9b * 2 ^ 64

/-- The number of bits behind the IPv4 address. -/
def Embedding.behind : Embedding → Nat
  | .mapped => 0
  | .compatible => 0
  | .sixToFour => 80
  | .nat64 => 0

/-- Whatever the bits behind it are. -/
def Embeds (embedding : Embedding) (a : Ipv4Addr) (ip : Ipv6Addr) : Prop :=
  ip.toBits / 2 ^ embedding.behind = embedding.before * 2 ^ 32 + a.toBits

instance (embedding : Embedding) (a : Ipv4Addr) (ip : Ipv6Addr) :
    Decidable (Embeds embedding a ip) :=
  inferInstanceAs (Decidable (_ = _))

theorem Ipv4Addr.toBits_lt (ip : Ipv4Addr) : ip.toBits < 2 ^ 32 := by
  have ha := ip.a.toNat_lt
  have hb := ip.b.toNat_lt
  have hc := ip.c.toNat_lt
  have hd := ip.d.toNat_lt
  unfold toBits
  omega

theorem Ipv4Addr.toBits_inj (ip other : Ipv4Addr) : ip.toBits = other.toBits ↔ ip = other := by
  constructor
  · intro h
    have hb := ip.b.toNat_lt
    have hc := ip.c.toNat_lt
    have hd := ip.d.toNat_lt
    have hb' := other.b.toNat_lt
    have hc' := other.c.toNat_lt
    have hd' := other.d.toNat_lt
    unfold toBits at h
    obtain ⟨a, b, c, d⟩ := ip
    obtain ⟨a', b', c', d'⟩ := other
    rw [Ipv4Addr.mk.injEq, ← UInt8.toNat_inj, ← UInt8.toNat_inj, ← UInt8.toNat_inj,
      ← UInt8.toNat_inj]
    dsimp only at *
    omega
  · rintro rfl
    rfl

theorem toBits_ofSegments (hi lo : UInt16) :
    (ofSegments hi lo).toBits = hi.toNat * 65536 + lo.toNat := by
  have hhi := hi.toNat_lt
  have hlo := lo.toNat_lt
  unfold ofSegments Ipv4Addr.toBits
  simp only [UInt8.toNat_ofNat']
  omega

theorem ofSegments_eq_iff (hi lo : UInt16) (a : Ipv4Addr) :
    ofSegments hi lo = a ↔ hi.toNat * 65536 + lo.toNat = a.toBits := by
  rw [← Ipv4Addr.toBits_inj, toBits_ofSegments]

/-- The number of an address whose first six segments and last two are told apart. -/
theorem toBits_eq_iff (ip : Ipv6Addr) (n0 n1 n2 n3 n4 n5 a : Nat) (h1 : n1 < 65536)
    (h2 : n2 < 65536) (h3 : n3 < 65536) (h4 : n4 < 65536) (h5 : n5 < 65536) (ha : a < 2 ^ 32) :
    ip.toBits = (((((n0 * 65536 + n1) * 65536 + n2) * 65536 + n3) * 65536 + n4) * 65536 + n5) *
        2 ^ 32 + a ↔
      ip.s0.toNat = n0 ∧ ip.s1.toNat = n1 ∧ ip.s2.toNat = n2 ∧ ip.s3.toNat = n3 ∧
        ip.s4.toNat = n4 ∧ ip.s5.toNat = n5 ∧ ip.s6.toNat * 65536 + ip.s7.toNat = a := by
  have hs1 := ip.s1.toNat_lt
  have hs2 := ip.s2.toNat_lt
  have hs3 := ip.s3.toNat_lt
  have hs4 := ip.s4.toNat_lt
  have hs5 := ip.s5.toNat_lt
  have hs6 := ip.s6.toNat_lt
  have hs7 := ip.s7.toNat_lt
  unfold Ipv6Addr.toBits
  omega

/-- The first six segments of an address that has the IPv4 address at its end. -/
structure Leads (ip : Ipv6Addr) (s0 s1 s2 s3 s4 s5 : UInt16) : Prop where
  first : ip.s0 = s0
  second : ip.s1 = s1
  third : ip.s2 = s2
  fourth : ip.s3 = s3
  fifth : ip.s4 = s4
  sixth : ip.s5 = s5

theorem embeds_tail (ip : Ipv6Addr) (a : Ipv4Addr) (s0 s1 s2 s3 s4 s5 : UInt16) :
    ip.toBits = (((((s0.toNat * 65536 + s1.toNat) * 65536 + s2.toNat) * 65536 + s3.toNat) * 65536 +
        s4.toNat) * 65536 + s5.toNat) * 2 ^ 32 + a.toBits ↔
      Leads ip s0 s1 s2 s3 s4 s5 ∧ ofSegments ip.s6 ip.s7 = a := by
  rw [toBits_eq_iff ip _ _ _ _ _ _ _ s1.toNat_lt s2.toNat_lt s3.toNat_lt s4.toNat_lt s5.toNat_lt
    a.toBits_lt, ofSegments_eq_iff]
  simp only [UInt16.toNat_inj]
  constructor
  · rintro ⟨h0, h1, h2, h3, h4, h5, ha⟩
    exact ⟨⟨h0, h1, h2, h3, h4, h5⟩, ha⟩
  · rintro ⟨⟨h0, h1, h2, h3, h4, h5⟩, ha⟩
    exact ⟨h0, h1, h2, h3, h4, h5, ha⟩

/-- An embedding with nothing behind the IPv4 address, by its first six segments. -/
theorem embeds_leads (embedding : Embedding) (a : Ipv4Addr) (ip : Ipv6Addr)
    (s0 s1 s2 s3 s4 s5 : UInt16) (hbehind : embedding.behind = 0)
    (hbefore : ((((s0.toNat * 65536 + s1.toNat) * 65536 + s2.toNat) * 65536 + s3.toNat) * 65536 +
      s4.toNat) * 65536 + s5.toNat = embedding.before) :
    Embeds embedding a ip ↔
      Leads ip s0 s1 s2 s3 s4 s5 ∧ ofSegments ip.s6 ip.s7 = a := by
  rw [← embeds_tail, hbefore]
  unfold Embeds
  rw [hbehind, Nat.pow_zero, Nat.div_one]

theorem embeds_mapped (a : Ipv4Addr) (ip : Ipv6Addr) :
    Embeds .mapped a ip ↔ Leads ip 0 0 0 0 0 0xffff ∧ ofSegments ip.s6 ip.s7 = a := by
  apply embeds_leads <;> rfl

theorem embeds_compatible (a : Ipv4Addr) (ip : Ipv6Addr) :
    Embeds .compatible a ip ↔ Leads ip 0 0 0 0 0 0 ∧ ofSegments ip.s6 ip.s7 = a := by
  apply embeds_leads <;> rfl

theorem embeds_nat64 (a : Ipv4Addr) (ip : Ipv6Addr) :
    Embeds .nat64 a ip ↔ Leads ip 0x0064 0xff9b 0 0 0 0 ∧ ofSegments ip.s6 ip.s7 = a := by
  apply embeds_leads <;> rfl

/-- Eighty bits are five segments. -/
theorem toBits_div (ip : Ipv6Addr) :
    ip.toBits / 2 ^ 80 = (ip.s0.toNat * 65536 + ip.s1.toNat) * 65536 + ip.s2.toNat := by
  have hs3 := ip.s3.toNat_lt
  have hs4 := ip.s4.toNat_lt
  have hs5 := ip.s5.toNat_lt
  have hs6 := ip.s6.toNat_lt
  have hs7 := ip.s7.toNat_lt
  unfold Ipv6Addr.toBits
  omega

theorem embeds_sixToFour (a : Ipv4Addr) (ip : Ipv6Addr) :
    Embeds .sixToFour a ip ↔ ip.s0 = 0x2002 ∧ ofSegments ip.s1 ip.s2 = a := by
  have hs1 := ip.s1.toNat_lt
  have hs2 := ip.s2.toNat_lt
  have ha := a.toBits_lt
  have hfirst : ip.s0 = 0x2002 ↔ ip.s0.toNat = 0x2002 := UInt16.toNat_inj.symm
  unfold Embeds
  rw [Embedding.behind, Embedding.before, toBits_div, hfirst, ofSegments_eq_iff]
  omega

/-! ### The classifier on embedded addresses -/

/-- `::1`. -/
def Ipv6Addr.localhost : Ipv6Addr := ⟨0, 0, 0, 0, 0, 0, 0, 1⟩

/-- `::`. -/
def Ipv6Addr.unspecified : Ipv6Addr := ⟨0, 0, 0, 0, 0, 0, 0, 0⟩

/-- Unique-local, link-local and multicast ranges, by the first segment. -/
def reservedRange (s0 : UInt16) : Bool :=
  (s0 &&& 0xfe00) == 0xfc00 || (s0 &&& 0xffc0) == 0xfe80 || (s0 &&& 0xff00) == 0xff00

theorem isPrivateV6_special (ip : Ipv6Addr) (h : ip = .localhost ∨ ip = .unspecified) :
    isPrivateV6 ip = true := if_pos h

theorem isPrivateV6_eq (ip : Ipv6Addr) (h : ¬(ip = .localhost ∨ ip = .unspecified)) :
    isPrivateV6 ip =
      ((toIpv4Mapped ip).any isPrivateV4 || (reservedRange ip.s0 ||
        v6V4CompatiblePrivate ip || v6EmbedsPrivateV4 ip)) := by
  unfold Ipv6Addr.localhost Ipv6Addr.unspecified at h
  unfold isPrivateV6 reservedRange
  rw [if_neg h]
  cases (toIpv4Mapped ip).any isPrivateV4 <;> rfl

/-- An embedded address is classified as the IPv4 address, unless it is `::1` or `::`. -/
theorem isPrivateV6_of_embeds (embedding : Embedding) (a : Ipv4Addr) (ip : Ipv6Addr)
    (hembeds : Embeds embedding a ip) (h : ¬(ip = .localhost ∨ ip = .unspecified)) :
    isPrivateV6 ip = isPrivateV4 a := by
  rw [isPrivateV6_eq ip h]
  obtain ⟨s0, s1, s2, s3, s4, s5, s6, s7⟩ := ip
  cases embedding with
  | mapped =>
      obtain ⟨⟨rfl, rfl, rfl, rfl, rfl, rfl⟩, rfl⟩ := (embeds_mapped a _).mp hembeds
      have hrange : reservedRange 0 = false := by decide
      simp [toIpv4Mapped, v6V4CompatiblePrivate, v6EmbedsPrivateV4, hrange]
  | compatible =>
      obtain ⟨⟨rfl, rfl, rfl, rfl, rfl, rfl⟩, rfl⟩ := (embeds_compatible a _).mp hembeds
      have hrange : reservedRange 0 = false := by decide
      simp [toIpv4Mapped, v6V4CompatiblePrivate, v6EmbedsPrivateV4, hrange]
  | sixToFour =>
      obtain ⟨rfl, rfl⟩ := (embeds_sixToFour a _).mp hembeds
      have hrange : reservedRange 0x2002 = false := by decide
      simp [toIpv4Mapped, v6V4CompatiblePrivate, v6EmbedsPrivateV4, hrange]
  | nat64 =>
      obtain ⟨⟨rfl, rfl, rfl, rfl, rfl, rfl⟩, rfl⟩ := (embeds_nat64 a _).mp hembeds
      have hrange : reservedRange 0x0064 = false := by decide
      simp [toIpv4Mapped, v6V4CompatiblePrivate, v6EmbedsPrivateV4, hrange]

/-- Only the compatible form of an address can be `::1` or `::`. -/
theorem embedding_of_special (embedding : Embedding) (a : Ipv4Addr) (ip : Ipv6Addr)
    (hembeds : Embeds embedding a ip) (h : ip = .localhost ∨ ip = .unspecified) :
    embedding = .compatible := by
  have hsegments : ip.s0 = 0 ∧ ip.s5 = 0 := by
    rcases h with rfl | rfl <;> exact ⟨rfl, rfl⟩
  cases embedding with
  | mapped =>
      have hsixth := ((embeds_mapped a ip).mp hembeds).1.sixth
      rw [hsegments.2] at hsixth
      cases hsixth
  | compatible => rfl
  | sixToFour =>
      have hfirst := ((embeds_sixToFour a ip).mp hembeds).1
      rw [hsegments.1] at hfirst
      cases hfirst
  | nat64 =>
      have hfirst := ((embeds_nat64 a ip).mp hembeds).1.first
      rw [hsegments.1] at hfirst
      cases hfirst

/-- No form of a private address gets through, and no form of a public one is taken for
private. -/
structure EmbeddingLaw (a : Ipv4Addr) : Prop where
  blocked : isPrivateV4 a = true → ∀ embedding ip, Embeds embedding a ip →
    isPrivateIp (.v6 ip) = true
  allowed : isPrivateV4 a = false → ∀ embedding ip, Embeds embedding a ip →
    (embedding = .compatible → ip ≠ .localhost ∧ ip ≠ .unspecified) →
    isPrivateIp (.v6 ip) = false

theorem embedding_law (a : Ipv4Addr) : EmbeddingLaw a := by
  refine ⟨?_, ?_⟩
  · intro hprivate embedding ip hembeds
    by_cases h : ip = .localhost ∨ ip = .unspecified
    · exact isPrivateV6_special ip h
    · exact (isPrivateV6_of_embeds embedding a ip hembeds h).trans hprivate
  · intro hpublic embedding ip hembeds hplain
    have h : ¬(ip = .localhost ∨ ip = .unspecified) := by
      intro hspecial
      obtain ⟨hlocal, hunspecified⟩ :=
        hplain (embedding_of_special embedding a ip hembeds hspecial)
      exact hspecial.elim hlocal hunspecified
    exact (isPrivateV6_of_embeds embedding a ip hembeds h).trans hpublic

/-- `2002:c0a8:0101::1` is a 6to4 form of 192.168.1.1. -/
example : Embeds .sixToFour ⟨192, 168, 1, 1⟩ ⟨0x2002, 0xc0a8, 0x0101, 0, 0, 0, 0, 1⟩ := by decide

end Runlet.Ssrf
