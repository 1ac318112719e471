import Runlet.Lib.Binary64
import Runlet.Core.MinorUnits

/-!
Money as `money.js` keeps it, and its way out as a count of minor units. The
count is computed exactly and then becomes a JavaScript number, which is the
count itself only when 53 bits hold it.
-/

namespace Runlet.MoneyUtil

open Binary64 DecimalFormat DecimalOps Text

/-- The minor-unit exponents other than two. -/
def EXP : List (String × Nat) :=
  [("BIF", 0), ("CLP", 0), ("DJF", 0), ("GNF", 0), ("ISK", 0), ("JPY", 0), ("KMF", 0),
    ("KRW", 0), ("PYG", 0), ("RWF", 0), ("UGX", 0), ("UYI", 0), ("VND", 0), ("VUV", 0),
    ("XAF", 0), ("XOF", 0), ("XPF", 0), ("BHD", 3), ("IQD", 3), ("JOD", 3), ("KWD", 3),
    ("LYD", 3), ("OMR", 3), ("TND", 3), ("CLF", 4), ("UYW", 4)]

def KNOWN : List String :=
  ["AED", "AFN", "ALL", "AMD", "ANG", "AOA", "ARS", "AUD", "AWG", "AZN",
    "BAM", "BBD", "BDT", "BGN", "BHD", "BIF", "BMD", "BND", "BOB", "BRL",
    "BSD", "BTN", "BWP", "BYN", "BZD", "CAD", "CDF", "CHF", "CLF", "CLP",
    "CNY", "COP", "CRC", "CUP", "CVE", "CZK", "DJF", "DKK", "DOP", "DZD",
    "EGP", "ERN", "ETB", "EUR", "FJD", "FKP", "GBP", "GEL", "GHS", "GIP",
    "GMD", "GNF", "GTQ", "GYD", "HKD", "HNL", "HTG", "HUF", "IDR", "ILS",
    "INR", "IQD", "IRR", "ISK", "JMD", "JOD", "JPY", "KES", "KGS", "KHR",
    "KMF", "KPW", "KRW", "KWD", "KYD", "KZT", "LAK", "LBP", "LKR", "LRD",
    "LSL", "LYD", "MAD", "MDL", "MGA", "MKD", "MMK", "MNT", "MOP", "MRU",
    "MUR", "MVR", "MWK", "MXN", "MYR", "MZN", "NAD", "NGN", "NIO", "NOK",
    "NPR", "NZD", "OMR", "PAB", "PEN", "PGK", "PHP", "PKR", "PLN", "PYG",
    "QAR", "RON", "RSD", "RUB", "RWF", "SAR", "SBD", "SCR", "SDG", "SEK",
    "SGD", "SHP", "SLE", "SOS", "SRD", "SSP", "STN", "SVC", "SYP", "SZL",
    "THB", "TJS", "TMT", "TND", "TOP", "TRY", "TTD", "TWD", "TZS", "UAH",
    "UGX", "USD", "UYI", "UYU", "UYW", "UZS", "VED", "VES", "VND", "VUV",
    "WST", "XAF", "XCD", "XOF", "XPF", "YER", "ZAR", "ZMW", "ZWG"]

def exponentOf (cur : String) : Except String Nat :=
  if cur ∈ KNOWN then
    match EXP.lookup cur with
    | some e => .ok e
    | none => .ok 2
  else .error ("unknown currency: " ++ cur)

/-- The amount is the number behind its text, over any decimals. -/
structure Money (D : Type) where
  amount : D
  currency : String
  deriving DecidableEq

def Money.toMinor (lib : DecimalLib) (m : Money Decimal) : Except String Number := do
  let exponent ← exponentOf m.currency
  let minor ← DecimalOps.toMinor lib m.amount (toString exponent)
  pure (Number.ofRat minor.val)

/-- What `JSON.stringify` sees. -/
structure MoneyJson where
  amount : Decimal
  currency : String
  minorUnits : Number

def Money.toJSON (lib : DecimalLib) (m : Money Decimal) : Except String MoneyJson := do
  let minor ← m.toMinor lib
  pure ⟨m.amount, m.currency, minor⟩

/-- Both members state one sum: the amount, to the minor unit. -/
def MoneyJson.Agrees (json : MoneyJson) : Prop :=
  ∃ exponent, exponentOf json.currency = .ok exponent ∧
    json.minorUnits.val? = some (DecimalOps.minorUnits json.amount exponent : ℚ)

/-! ### Exponents -/

theorem EXP_le (cur : String) (e : Nat) (hlookup : EXP.lookup cur = some e) : e ≤ 4 := by
  have hall : EXP.all fun entry => entry.2 ≤ 4 := by decide
  obtain ⟨before, after, hsplit, -⟩ := List.lookup_eq_some_iff.mp hlookup
  have hmem : (cur, e) ∈ EXP := by
    rw [hsplit]
    exact List.mem_append_right before List.mem_cons_self
  have hle := List.all_eq_true.mp hall (cur, e) hmem
  exact of_decide_eq_true hle

theorem exponentOf_le (cur : String) (exponent : Nat) (hok : exponentOf cur = .ok exponent) :
    exponent ≤ 4 := by
  unfold exponentOf at hok
  split at hok
  · split at hok
    · rename_i e hlookup
      cases hok
      exact EXP_le cur _ hlookup
    · cases hok
      decide
  · cases hok

/-! ### The number that is returned -/

theorem toMinor_eq_ok_iff (lib : DecimalLib) (m : Money Decimal) (number : Number) :
    m.toMinor lib = .ok number ↔
      ∃ exponent minor, exponentOf m.currency = .ok exponent ∧
        DecimalOps.toMinor lib m.amount (toString exponent) = .ok minor ∧
        Number.ofRat minor.val = number := by
  unfold Money.toMinor
  constructor
  · intro hok
    obtain ⟨exponent, hexponent, hok⟩ := (bind_eq_ok_iff _ _ _).mp hok
    obtain ⟨minor, hminor, hok⟩ := (bind_eq_ok_iff _ _ _).mp hok
    exact ⟨exponent, minor, hexponent, hminor, Except.ok.inj hok⟩
  · rintro ⟨exponent, minor, hexponent, hminor, hnumber⟩
    apply (bind_eq_ok_iff _ _ _).mpr
    refine ⟨exponent, hexponent, ?_⟩
    apply (bind_eq_ok_iff _ _ _).mpr
    exact ⟨minor, hminor, congrArg Except.ok hnumber⟩

theorem minorUnits_lt (lib : DecimalLib) (hlib : lib.Lawful) (amount minor : Decimal)
    (exponent : Nat) (hexponent : exponent ≤ 4)
    (hok : DecimalOps.toMinor lib amount (toString exponent) = .ok minor) :
    minor.val = minorUnits amount exponent ∧
      |(minorUnits amount exponent : ℚ)| < (2 : ℚ) ^ (1023 : Int) := by
  have hval := toMinor_val lib hlib amount minor (toString exponent) exponent
    (minorPlaces_toString exponent (by omega)) hok
  refine ⟨hval, ?_⟩
  have hbound : ((79228162514264337593543950335 : Nat) : ℚ) < (2 : ℚ) ^ (96 : Int) := by
    norm_num
  unfold minorUnits
  rw [← hval]
  exact minor.abs_val_le.trans_lt (hbound.trans_le (two_zpow_le (by omega)))

/-- The double next to the exact count. -/
theorem toMinor_number (lib : DecimalLib) (hlib : lib.Lawful) (m : Money Decimal)
    (exponent : Nat) (hexponent : exponentOf m.currency = .ok exponent) (number : Number)
    (hok : m.toMinor lib = .ok number) :
    number.val? = some (roundDouble (minorUnits m.amount exponent)) ∧
      (roundDouble (minorUnits m.amount exponent) = minorUnits m.amount exponent ↔
        Significant (minorUnits m.amount exponent)) := by
  obtain ⟨exponent', minor, hexponent', hminor, rfl⟩ := (toMinor_eq_ok_iff _ _ _).mp hok
  cases hexponent.symm.trans hexponent'
  obtain ⟨hval, hrange⟩ := minorUnits_lt lib hlib m.amount minor exponent
    (exponentOf_le _ _ hexponent) hminor
  constructor
  · rw [hval]
    exact Number.ofRat_val _ hrange
  · rw [← isDouble_intCast_iff]
    exact roundDouble_isDouble_iff _ (roundDouble_lt_top _ hrange)

/-- Whenever the count is returned, it is the exact one just when 53 bits hold
that, and only then the two members of the JSON form agree. -/
theorem to_minor_exact_iff (lib : DecimalLib) (hlib : lib.Lawful) (m : Money Decimal)
    (number : Number) (hok : m.toMinor lib = .ok number) :
    ∃ exponent, exponentOf m.currency = .ok exponent ∧
      (number.val? = some (minorUnits m.amount exponent : ℚ) ↔
        Significant (minorUnits m.amount exponent)) ∧
      ∃ json, m.toJSON lib = .ok json ∧
        (json.Agrees ↔ Significant (minorUnits m.amount exponent)) := by
  obtain ⟨exponent, -, hexponent, -, -⟩ := (toMinor_eq_ok_iff _ _ _).mp hok
  obtain ⟨hnumber, hexact⟩ := toMinor_number lib hlib m exponent hexponent number hok
  have hcount : number.val? = some (minorUnits m.amount exponent : ℚ) ↔
      Significant (minorUnits m.amount exponent) := by
    rw [hnumber, Option.some_inj]
    exact hexact
  refine ⟨exponent, hexponent, hcount, ⟨m.amount, m.currency, number⟩, ?_, ?_⟩
  · unfold Money.toJSON
    apply (bind_eq_ok_iff _ _ _).mpr
    exact ⟨number, hok, rfl⟩
  · rw [← hcount]
    constructor
    · rintro ⟨exponent', hexponent', hagrees⟩
      cases hexponent.symm.trans hexponent'
      exact hagrees
    · intro hagrees
      exact ⟨exponent, hexponent, hagrees⟩

/-- 19.99 dollars are 1999 cents. -/
theorem to_minor_exact_iff_dollars :
    ∃ number, (Money.mk ⟨1999, 2, by decide, by decide⟩ "USD").toMinor sampleLib = .ok number ∧
      number.val? = some 1999 := by
  have hcount : minorUnits ⟨1999, 2, by decide, by decide⟩ 2 = 1999 := by decide +kernel
  have hok : (Money.mk ⟨1999, 2, by decide, by decide⟩ "USD").toMinor sampleLib =
      .ok (Number.ofRat 1999) := by
    apply (toMinor_eq_ok_iff _ _ _).mpr
    refine ⟨2, ⟨1999, 0, by decide, by decide⟩, by decide +kernel, by decide +kernel, ?_⟩
    simp [Dec.val]
  obtain ⟨exponent, hexponent, hexact, -⟩ :=
    to_minor_exact_iff sampleLib sampleLib_lawful _ _ hok
  have htwo : exponent = 2 := by
    have hdollars : exponentOf "USD" = .ok 2 := by decide +kernel
    exact Except.ok.inj (hexponent.symm.trans hdollars)
  rw [htwo, hcount] at hexact
  exact ⟨_, hok, hexact.mpr ⟨1999, 0, by decide, by decide, by decide⟩⟩

/-- One cent more than 53 bits hold comes back one cent short. -/
theorem to_minor_cent_lost :
    sampleLib.Lawful ∧
    (Money.mk ⟨9007199254740993, 2, by decide, by decide⟩ "USD").toMinor sampleLib =
      .ok (Number.ofRat 9007199254740993) ∧
    minorUnits ⟨9007199254740993, 2, by decide, by decide⟩ 2 = 9007199254740993 ∧
    (Number.ofRat 9007199254740993).val? = some 9007199254740992 := by
  refine ⟨sampleLib_lawful, ?_, by decide +kernel, by decide +kernel⟩
  apply (toMinor_eq_ok_iff _ _ _).mpr
  refine ⟨2, ⟨9007199254740993, 0, by decide, by decide⟩, by decide +kernel,
    by decide +kernel, ?_⟩
  simp [Dec.val]

end Runlet.MoneyUtil
