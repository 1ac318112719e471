import Mathlib.Order.Monotone.Basic
import Runlet.Core.S3Listing
import Runlet.Core.S3Verify

/-!
The totals of `do_usage` against the pages a store serves. The loop asks for
the next page with the token it read of the last one, adds the pages up in 64
bits and stops at the limit; what it returns is compared with the sums over all
pages up to the first without a token.
-/

namespace Runlet.S3

open Text Errors Capability PercentText XmlText TextCrates

/-! ### The pages of a run -/

/-- The bytes on the first `count` pages. -/
def totalBytes (pages : Nat → ListPage) : Nat → Nat
  | 0 => 0
  | count + 1 => totalBytes pages count + (pages count).sizes.sum

def totalObjects (pages : Nat → ListPage) : Nat → Nat
  | 0 => 0
  | count + 1 => totalObjects pages count + (pages count).sizes.length

/-- The totals up to and with a page fit into 64 bits. -/
def Fits (pages : Nat → ListPage) (page : Nat) : Prop :=
  totalBytes pages (page + 1) ≤ maxU64 ∧ totalObjects pages (page + 1) ≤ maxU64

/-- A token that is white space, and not written as references. -/
def BlankToken (escaping : Escaping) (token : String) : Prop :=
  escaping.Kept token ∧ ∀ c ∈ token.toList, isWhitespace c = true

/-- A page behind which the next one is asked for. -/
def Continues (escaping : Escaping) (pages : Nat → ListPage) (page : Nat) : Prop :=
  Fits pages page ∧ ∃ token, (pages page).token = some token ∧ ¬ BlankToken escaping token

theorem readToken_none_iff (escaping : Escaping) (page : ListPage) :
    readToken escaping page = none ↔
      ∀ token, page.token = some token → BlankToken escaping token := by
  unfold readToken BlankToken
  cases page.token with
  | none => simp
  | some token =>
      have hempty : String.ofList (trimChars (escaping.text token)) = "" ↔
          trimChars (escaping.text token) = [] := by
        rw [← String.toList_inj, String.toList_ofList]
        rfl
      simp [Option.filter_some, hempty, escaping.trim_text_nil_iff]

theorem readToken_some (escaping : Escaping) (page : ListPage) (read : String)
    (hread : readToken escaping page = some read) :
    ∃ token, page.token = some token ∧ ¬ BlankToken escaping token ∧
      read = String.ofList (trimChars (escaping.text token)) := by
  have hblank : ¬ ∀ token, page.token = some token → BlankToken escaping token := by
    rw [← readToken_none_iff, hread]
    simp
  unfold readToken at hread
  cases htoken : page.token with
  | none => simp [htoken] at hread
  | some token =>
      refine ⟨token, rfl, ?_, ?_⟩
      · simpa [htoken] using hblank
      · simp only [htoken, Option.map_some, Option.filter_some] at hread
        split at hread
        · exact (Option.some.inj hread).symm
        · cases hread

/-- The run of a listing: URLs are signed anew for every page, and the pages
are served in their order. -/
structure Serving [TextCrates] (config : SigningConfig) (outside : Outside)
    (envs : Nat → SigningEnv) (escaping : Escaping) (pages : Nat → ListPage) : Prop where
  signs : ∀ target page token, outside.listUrl target page token =
    buildListUrl (envs page) config target token
  signed : ∀ target page token, ∃ url, buildListUrl (envs page) config target token = .ok url
  serves : ∀ page url, ∃ status, isSuccess status = true ∧
    outside.send page url = .answered status (.ok ((pages page).body escaping))

def requestUrl : Op → Option String
  | .request url => some url
  | .record _ _ => none

/-- The URLs a run asked for, in their order. -/
def requestUrls (trace : List Op) : List String := trace.filterMap requestUrl

/-- The token a page is asked for with. -/
def askedToken (escaping : Escaping) (pages : Nat → ListPage) (page : Nat)
    (token : Option String) : Nat → Option String
  | 0 => token
  | index + 1 => readToken escaping (pages (page + index))

/-- How the loop ends: out of budget, with totals that do not fit, or behind a
page without a token to read. -/
inductive LoopEnd (escaping : Escaping) (pages : Nat → ListPage) (maxOps left page count : Nat) :
    Except DynamicFault (Nat × Nat) → Prop where
  | budget : count = left → LoopEnd escaping pages maxOps left page count
      (.error (s3OpLimit maxOps))
  | overflow (fault : DynamicFault) : count < left → ¬ Fits pages (page + count) →
      fault ≠ s3OpLimit maxOps → LoopEnd escaping pages maxOps left page count (.error fault)
  | last : count < left → Fits pages (page + count) →
      readToken escaping (pages (page + count)) = none →
      LoopEnd escaping pages maxOps left page count
        (.ok (totalBytes pages (page + count + 1), totalObjects pages (page + count + 1)))

/-- What the loop did: `count` pages led to the next one, every page up to the
last was asked for with the token read of the one before, and how it ended. -/
structure LoopRun (outside : Outside) (target : ListTarget) (escaping : Escaping)
    (pages : Nat → ListPage) (maxOps left page : Nat) (token : Option String)
    (run : Pipeline Op DynamicFault (Nat × Nat)) (count : Nat) : Prop where
  within : count ≤ left
  continues : ∀ index < count, Continues escaping pages (page + index)
  asked : ∀ index url, (requestUrls run.trace)[index]? = some url ↔
    index ≤ count ∧ index < left ∧
      outside.listUrl target (page + index) (askedToken escaping pages page token index) = .ok url
  ended : LoopEnd escaping pages maxOps left page count run.result

section Loop

variable {config : SigningConfig} {outside : Outside} {envs : Nat → SigningEnv}
  {escaping : Escaping} {pages : Nat → ListPage}

/-- A run that ends at its first page. -/
theorem LoopRun.stopped {target : ListTarget} {maxOps left page : Nat} {token : Option String}
    {run : Pipeline Op DynamicFault (Nat × Nat)} (url : String)
    (hurl : outside.listUrl target page token = .ok url) (htrace : requestUrls run.trace = [url])
    (hended : LoopEnd escaping pages maxOps (left + 1) page 0 run.result) :
    LoopRun outside target escaping pages maxOps (left + 1) page token run 0 where
  within := Nat.zero_le _
  continues := by
    intro index hindex
    exact absurd hindex (Nat.not_lt_zero index)
  asked := by
    intro index asked
    rw [htrace]
    cases index with
    | zero => simp [askedToken, hurl]
    | succ index => simp
  ended := hended

/-- A run that goes on behind its first page. -/
theorem LoopRun.step {target : ListTarget} {maxOps left page count : Nat}
    {token : Option String} {next : String} {rest run : Pipeline Op DynamicFault (Nat × Nat)}
    (url : String) (hurl : outside.listUrl target page token = .ok url)
    (hnext : readToken escaping (pages page) = some next) (hfits : Fits pages page)
    (hrest : LoopRun outside target escaping pages maxOps left (page + 1) (some next) rest count)
    (htrace : requestUrls run.trace = url :: requestUrls rest.trace)
    (hresult : run.result = rest.result) :
    LoopRun outside target escaping pages maxOps (left + 1) page token run (count + 1) where
  within := Nat.succ_le_succ hrest.within
  continues := by
    intro index hindex
    cases index with
    | zero =>
        obtain ⟨issued, htoken, hblank, -⟩ := readToken_some escaping (pages page) next hnext
        exact ⟨hfits, issued, htoken, hblank⟩
    | succ index =>
        have hcontinues := hrest.continues index (by omega)
        rwa [Nat.add_right_comm, Nat.add_assoc] at hcontinues
  asked := by
    intro index asked
    rw [htrace]
    cases index with
    | zero => simp [askedToken, hurl]
    | succ index =>
        have htokens : askedToken escaping pages (page + 1) (some next) index =
            askedToken escaping pages page token (index + 1) := by
          cases index with
          | zero => exact hnext.symm
          | succ index => simp only [askedToken, Nat.add_right_comm, Nat.add_assoc]
        have hpage : page + 1 + index = page + (index + 1) := by omega
        rw [List.getElem?_cons_succ, hrest.asked, htokens, hpage]
        simp only [Nat.add_le_add_iff_right, Nat.add_lt_add_iff_right]
  ended := by
    have hpage : page + 1 + count = page + (count + 1) := by omega
    have hended := hrest.ended
    rw [hresult]
    generalize rest.result = result at hended
    cases hended with
    | budget hleft => exact .budget (by rw [hleft])
    | overflow fault hlt hover hfault =>
        rw [hpage] at hover
        exact .overflow fault (Nat.succ_lt_succ hlt) hover hfault
    | last hlt hlast hnone =>
        rw [hpage] at hlast hnone ⊢
        exact .last (Nat.succ_lt_succ hlt) hlast hnone

variable [TextCrates]

/-- One page of the loop: an error when the totals no longer fit, the end
without a token, and the rest of the loop with one. -/
theorem usageLoop_page (hserving : Serving config outside envs escaping pages)
    (target : ListTarget) (maxOps left page : Nat) (token : Option String) :
    ∃ url, outside.listUrl target page token = .ok url ∧
      ((¬ Fits pages page ∧ ∃ fault, fault ≠ s3OpLimit maxOps ∧
        (usageLoop outside target maxOps (left + 1) page token (totalBytes pages page)
          (totalObjects pages page)).result = .error fault ∧
        requestUrls (usageLoop outside target maxOps (left + 1) page token
          (totalBytes pages page) (totalObjects pages page)).trace = [url]) ∨
      (Fits pages page ∧
        usageLoop outside target maxOps (left + 1) page token (totalBytes pages page)
          (totalObjects pages page) =
        match readToken escaping (pages page) with
        | none => ⟨[.request url, .record "usage"
            (some ((pages page).sizes.sum, (pages page).sizes.length))],
            .ok (totalBytes pages (page + 1), totalObjects pages (page + 1))⟩
        | some next =>
            let rest := usageLoop outside target maxOps left (page + 1) (some next)
              (totalBytes pages (page + 1)) (totalObjects pages (page + 1))
            ⟨[.request url, .record "usage"
              (some ((pages page).sizes.sum, (pages page).sizes.length))] ++ rest.trace,
              rest.result⟩)) := by
  obtain ⟨url, hsigned⟩ := hserving.signed target page token
  obtain ⟨status, hstatus, hsent⟩ := hserving.serves page url
  have hurl : outside.listUrl target page token = .ok url := by
    rw [hserving.signs, hsigned]
  obtain ⟨hread, hunread⟩ := readListPage_page escaping (pages page) status hstatus
  have hfit : Fits pages page ↔
      totalBytes pages page + (pages page).sizes.sum ≤ 18446744073709551615 ∧
        totalObjects pages page + (pages page).sizes.length ≤ 18446744073709551615 := Iff.rfl
  have hmax : maxU64 = 18446744073709551615 := rfl
  refine ⟨url, hurl, ?_⟩
  by_cases hown : (pages page).sizes.sum ≤ maxU64 ∧ (pages page).sizes.length ≤ maxU64
  · have hfetched : fetchListPage outside target page token = ⟨[.request url],
        .ok ((pages page).sizes.sum, (pages page).sizes.length,
          readToken escaping (pages page))⟩ := by
      simp only [fetchListPage, hurl, hsent, hread hown]
    simp only [usageLoop, hfetched]
    by_cases hover : totalBytes pages page + (pages page).sizes.sum > 18446744073709551615
    · left
      rw [if_pos hover, hfit]
      exact ⟨by omega, _, by simp [s3Signing, s3OpLimit], rfl, rfl⟩
    rw [if_neg hover]
    by_cases hroom : totalObjects pages page + (pages page).sizes.length > 18446744073709551615
    · left
      rw [if_pos hroom, hfit]
      exact ⟨by omega, _, by simp [s3Signing, s3OpLimit], rfl, rfl⟩
    right
    rw [if_neg hroom, hfit]
    refine ⟨by omega, ?_⟩
    cases readToken escaping (pages page) with
    | none => rfl
    | some next => rfl
  · obtain ⟨err, herr⟩ := hunread hown
    have hfetched : fetchListPage outside target page token = ⟨[.request url], .error err⟩ := by
      simp only [fetchListPage, hurl, hsent, herr]
    left
    simp only [usageLoop, hfetched]
    rw [hfit]
    exact ⟨by omega, _, by simp [s3Upstream, s3OpLimit], rfl, rfl⟩

/-- The loop goes from page to page until one of its three ends. -/
theorem usageLoop_run (hserving : Serving config outside envs escaping pages)
    (target : ListTarget) (maxOps left page : Nat) (token : Option String) :
    ∃ count, LoopRun outside target escaping pages maxOps left page token
      (usageLoop outside target maxOps left page token (totalBytes pages page)
        (totalObjects pages page)) count := by
  induction left generalizing page token with
  | zero =>
      refine ⟨0, Nat.le_refl _, ?_, ?_, .budget rfl⟩
      · intro index hindex
        exact absurd hindex (Nat.not_lt_zero index)
      · intro index url
        simp [usageLoop, requestUrls]
  | succ left ih =>
      obtain ⟨url, hurl, hstep⟩ := usageLoop_page hserving target maxOps left page token
      rcases hstep with ⟨hover, fault, hfault, hresult, htrace⟩ | ⟨hfits, hrun⟩
      · refine ⟨0, LoopRun.stopped url hurl htrace ?_⟩
        rw [hresult]
        exact .overflow fault (Nat.succ_pos left) hover hfault
      · cases hnext : readToken escaping (pages page) with
        | none =>
            rw [hnext] at hrun
            refine ⟨0, LoopRun.stopped url hurl ?_ ?_⟩
            · rw [hrun]
              rfl
            · rw [hrun]
              exact .last (Nat.succ_pos left) hfits hnext
        | some next =>
            rw [hnext] at hrun
            obtain ⟨count, hrest⟩ := ih (page + 1) (some next)
            refine ⟨count + 1, LoopRun.step url hurl hnext hfits hrest ?_ ?_⟩
            · rw [hrun]
              rfl
            · rw [hrun]

end Loop

/-! ### Tokens on their way back -/

/-- The values of `continuation-token` in the query of a URL. -/
def sentTokens (url : String) : List String :=
  match rsplitOnceChars '?' url.toList with
  | some (_, query) =>
      ((decodeQuery (String.ofList query)).getD []).filterMap fun pair =>
        if pair.1 = "continuation-token" then some pair.2 else none
  | none => []

theorem listPairs_continuation (config : SigningConfig) (amzDate datestamp keyPrefix : String)
    (token : String) :
    (listPairs config amzDate datestamp keyPrefix (some token)).filterMap
      (fun pair => if pair.1 = "continuation-token" then some pair.2 else none) = [token] := by
  have hsigned : (signedPairs config.accessKey (credentialScope config datestamp) amzDate
      60).filterMap (fun pair => if pair.1 = "continuation-token" then some pair.2 else none) =
      [] := by
    unfold signedPairs
    simp
  have hprefix : (if keyPrefix = "" then [] else [("prefix", keyPrefix)]).filterMap
      (fun pair => if pair.1 = "continuation-token" then some pair.2 else none) =
      ([] : List String) := by
    split <;> simp
  simp only [listPairs, List.filterMap_append, hsigned, hprefix]
  simp

/-- The token a page is asked for with is decoded from the URL as it was. -/
theorem sentTokens_list [TextCrates] (env : SigningEnv) (config : SigningConfig)
    (target : ListTarget) (token url : String)
    (hok : buildListUrl env config target (some token) = .ok url) : sentTokens url = [token] := by
  obtain ⟨amzDate, datestamp, now, signature, -, hurl⟩ := buildListUrl_ok _ _ _ _ _ hok
  have hsignable := list_signable config amzDate datestamp target.host target.keyPrefix
    (some token)
  have hchars : url.toList = (target.scheme ++ "://" ++ target.host ++
      listUri config.toS3Config).toList ++ '?' ::
        ((canonicalQueryFromPairs (listPairs config amzDate datestamp target.keyPrefix
          (some token))).toList ++ "&X-Amz-Signature=".toList ++ (hexEncode signature).toList) := by
    rw [hurl]
    simp [SignInput.urlOn, listInput, signInput]
  obtain ⟨ordered, hperm, hdecoded⟩ := decodeQuery_signed _ signature hsignable.nonempty
  have hquery := not_mem_signedQuery _ signature hsignable.nonempty '?' (by decide) (by decide)
    (by decide) (by decide)
  have htokens := (hperm.filterMap fun pair =>
    if pair.1 = "continuation-token" then some pair.2 else none)
  rw [listPairs_continuation, List.perm_singleton] at htokens
  rw [sentTokens, hchars, rsplitOnceChars_append '?' _ _ hquery]
  simp only [hdecoded, Option.getD_some, List.filterMap_append, htokens]
  simp

/-! ### The law of a run -/

/-- The first page without a token. -/
def LastPage (pages : Nat → ListPage) (last : Nat) : Prop :=
  (pages last).token = none ∧ ∀ page < last, (pages page).token ≠ none

def EndlessPages (pages : Nat → ListPage) : Prop := ∀ page, (pages page).token ≠ none

/-- Within the budget, the store's own tokens go back to it, the totals are
those of all pages, and a listing without end ends at the limit. -/
structure UsageLaw (pages : Nat → ListPage) (maxOps : Nat) (keyPrefix : String)
    (run : Pipeline Op DynamicFault Json) : Prop where
  bounded : requests run.trace ≤ maxOps
  tokens : ∀ page url, (requestUrls run.trace)[page + 1]? = some url →
    ∃ token, (pages page).token = some token ∧ sentTokens url = [token]
  totals : ∀ answer, run.result = .ok answer → ∃ last, LastPage pages last ∧
    answer = usageResponse keyPrefix (totalBytes pages (last + 1)) (totalObjects pages (last + 1))
  endless : EndlessPages pages → run.result = .error (s3OpLimit maxOps)

/-- A page that is asked for with `left` pages allowed. -/
def Reached (escaping : Escaping) (pages : Nat → ListPage) (left page : Nat) : Prop :=
  page < left ∧ ∀ before < page, Continues escaping pages before

/-- Tokens that go back to the store have nothing to escape or trim in them; a
blank token is followed by empty pages only; and the totals of a listing without
end fit. All of this up to the limit. -/
structure PlainTokens (escaping : Escaping) (pages : Nat → ListPage) (left : Nat) : Prop where
  kept : ∀ page token, Reached escaping pages left page → page + 1 < left →
    Continues escaping pages page → (pages page).token = some token →
    escaping.Kept token ∧ trim token = token
  blank : ∀ page token, Reached escaping pages left page → Fits pages page →
    (pages page).token = some token → BlankToken escaping token →
    ∃ last, LastPage pages last ∧ ∀ later, page < later → later ≤ last →
      (pages later).sizes = []
  endless : EndlessPages pages → ∀ page, Reached escaping pages left page → Fits pages page

section Law

variable {config : SigningConfig} {outside : Outside} {envs : Nat → SigningEnv}
  {escaping : Escaping} {pages : Nat → ListPage} {target : ListTarget} {maxOps left count : Nat}
  {run : Pipeline Op DynamicFault (Nat × Nat)}

/-- Trimming gives back exactly the tokens that are kept. -/
theorem trimmed_eq_iff (escaping : Escaping) (token : String) :
    String.ofList (trimChars (escaping.text token)) = token ↔
      escaping.Kept token ∧ trim token = token := by
  rw [← String.toList_inj, String.toList_ofList, escaping.trim_text_eq_iff]
  unfold trim
  constructor
  · rintro ⟨hkept, htrim⟩
    exact ⟨hkept, by rw [htrim, String.ofList_toList]⟩
  · rintro ⟨hkept, htrim⟩
    refine ⟨hkept, ?_⟩
    have hchars := congrArg String.toList htrim
    rwa [String.toList_ofList] at hchars

theorem Continues.read {page : Nat} (hcontinues : Continues escaping pages page) :
    ∃ token, (pages page).token = some token ∧
      readToken escaping (pages page) =
        some (String.ofList (trimChars (escaping.text token))) := by
  obtain ⟨-, token, htoken, hblank⟩ := hcontinues
  cases hread : readToken escaping (pages page) with
  | none =>
      exact absurd ((readToken_none_iff escaping (pages page)).mp hread token htoken) hblank
  | some read =>
      obtain ⟨issued, hissued, -, hsame⟩ := readToken_some escaping (pages page) read hread
      cases htoken.symm.trans hissued
      exact ⟨token, htoken, by rw [hsame]⟩

/-- Counted from the first page. -/
theorem LoopRun.continues_before
    (hrun : LoopRun outside target escaping pages maxOps left 0 none run count) {page : Nat}
    (hpage : page < count) : Continues escaping pages page := by
  have hcontinues := hrun.continues page hpage
  rwa [Nat.zero_add] at hcontinues

/-- The page behind the last one that led on leads no further. -/
theorem LoopRun.not_continues
    (hrun : LoopRun outside target escaping pages maxOps left 0 none run count)
    (hlt : count < left) : ¬ Continues escaping pages count := by
  intro hcontinues
  have hended := hrun.ended
  generalize run.result = result at hended
  cases hended with
  | budget hleft => omega
  | overflow fault _ hover _ =>
      rw [Nat.zero_add] at hover
      exact hover hcontinues.1
  | last _ _ hnone =>
      obtain ⟨token, -, hread⟩ := hcontinues.read
      rw [Nat.zero_add, hread] at hnone
      cases hnone

theorem LoopRun.reached_iff
    (hrun : LoopRun outside target escaping pages maxOps left 0 none run count) (page : Nat) :
    Reached escaping pages left page ↔ page < left ∧ page ≤ count := by
  constructor
  · rintro ⟨hlt, hbefore⟩
    refine ⟨hlt, ?_⟩
    by_contra hmore
    exact hrun.not_continues (by omega) (hbefore count (by omega))
  · rintro ⟨hlt, hle⟩
    refine ⟨hlt, ?_⟩
    intro before hbefore
    exact hrun.continues_before (by omega)

theorem totalObjects_mono (pages : Nat → ListPage) : Monotone (totalObjects pages) := by
  apply monotone_nat_of_le_succ
  intro page
  exact Nat.le_add_right _ _

/-- Pages without objects add nothing. -/
theorem totals_empty (pages : Nat → ListPage) (page last : Nat) (hle : page ≤ last)
    (hempty : ∀ later, page < later → later ≤ last → (pages later).sizes = []) :
    totalBytes pages (last + 1) = totalBytes pages (page + 1) ∧
      totalObjects pages (last + 1) = totalObjects pages (page + 1) := by
  induction last, hle using Nat.le_induction with
  | base => exact ⟨rfl, rfl⟩
  | succ last hle ih =>
      obtain ⟨hbytes, hobjects⟩ := ih fun later hlt hlater => hempty later hlt (by omega)
      have hnone := hempty (last + 1) (by omega) (Nat.le_refl _)
      have hsum : totalBytes pages (last + 1 + 1) =
          totalBytes pages (last + 1) + (pages (last + 1)).sizes.sum := rfl
      have hcount : totalObjects pages (last + 1 + 1) =
          totalObjects pages (last + 1) + (pages (last + 1)).sizes.length := rfl
      rw [hsum, hcount, hnone]
      exact ⟨hbytes, hobjects⟩

theorem usageResponse_objects (keyPrefix : String) (bytes objects bytes' objects' : Nat)
    (h : usageResponse keyPrefix bytes objects = usageResponse keyPrefix bytes' objects') :
    objects = objects' := by
  simp only [usageResponse, Json.obj.injEq, List.cons.injEq, Prod.mk.injEq, Json.num.injEq,
    true_and, and_true] at h
  have hdigits := congrArg String.toList h.2
  rw [toString_chars, toString_chars] at hdigits
  have hread := parseDigits_toDigits objects
  rw [hdigits, parseDigits_toDigits] at hread
  exact (Option.some.inj hread).symm

/-- The answer of a call, from the totals of its loop. -/
def answered (keyPrefix : String) (run : Pipeline Op DynamicFault (Nat × Nat)) :
    Pipeline Op DynamicFault Json :=
  ⟨run.trace, run.result.map fun total => usageResponse keyPrefix total.1 total.2⟩

theorem doUsage_answered (access : S3Access) (payload : String) (used : Nat)
    (htarget : usageTarget access outside payload = .ok target) :
    doUsage access outside payload used = answered target.keyPrefix
      (usageLoop outside target access.maxOps (access.maxOps - used) 0 none 0 0) := by
  simp only [doUsage, htarget]
  rfl

variable [TextCrates]

theorem LoopRun.plain_of_law (hserving : Serving config outside envs escaping pages)
    (hrun : LoopRun outside target escaping pages maxOps left 0 none run count)
    (keyPrefix : String) (hlaw : UsageLaw pages maxOps keyPrefix (answered keyPrefix run)) :
    PlainTokens escaping pages left where
  kept := by
    intro page token hreached hnext hcontinues htoken
    obtain ⟨-, hle⟩ := (hrun.reached_iff page).mp hreached
    have hlt : page < count := by
      apply Nat.lt_of_le_of_ne hle
      intro heq
      exact hrun.not_continues (by omega) (heq ▸ hcontinues)
    obtain ⟨issued, hissued, hread⟩ := hcontinues.read
    cases htoken.symm.trans hissued
    obtain ⟨url, hsigned⟩ := hserving.signed target (page + 1)
      (some (String.ofList (trimChars (escaping.text token))))
    have hasked : (requestUrls run.trace)[page + 1]? = some url := by
      apply (hrun.asked (page + 1) url).mpr
      refine ⟨hlt, hnext, ?_⟩
      simp only [askedToken, Nat.zero_add, hread, hserving.signs, hsigned]
    obtain ⟨stored, hstored, hsent⟩ := hlaw.tokens page url hasked
    cases htoken.symm.trans hstored
    rw [sentTokens_list _ _ _ _ _ hsigned] at hsent
    exact (trimmed_eq_iff escaping token).mp (List.cons.inj hsent).1
  blank := by
    intro page token hreached hfits htoken hblank
    obtain ⟨hlt, hle⟩ := (hrun.reached_iff page).mp hreached
    have hlast : page = count := by
      by_contra hne
      obtain ⟨-, issued, hissued, hink⟩ :=
        hrun.continues_before (show page < count by omega)
      cases htoken.symm.trans hissued
      exact hink hblank
    subst hlast
    have hended := hrun.ended
    have htotals := hlaw.totals
    unfold answered at htotals
    generalize run.result = result at hended htotals
    cases hended with
    | budget hleft => omega
    | overflow fault _ hover _ =>
        rw [Nat.zero_add] at hover
        exact absurd hfits hover
    | last _ _ _ =>
        obtain ⟨last, hlast, hanswer⟩ := htotals _ rfl
        have hobjects := usageResponse_objects _ _ _ _ _ hanswer
        rw [Nat.zero_add] at hobjects
        refine ⟨last, hlast, ?_⟩
        intro later hlater hbefore
        have hlow := totalObjects_mono pages (show page + 1 ≤ later by omega)
        have hhigh := totalObjects_mono pages (show later + 1 ≤ last + 1 by omega)
        have hstep : totalObjects pages (later + 1) =
            totalObjects pages later + (pages later).sizes.length := rfl
        apply List.length_eq_zero_iff.mp
        omega
  endless := by
    intro hendless page hreached
    obtain ⟨hlt, hle⟩ := (hrun.reached_iff page).mp hreached
    by_cases hbefore : page < count
    · exact (hrun.continues_before hbefore).1
    · have hlast : page = count := by omega
      subst hlast
      have hended := hrun.ended
      have hresult := hlaw.endless hendless
      unfold answered at hresult
      generalize run.result = result at hended hresult
      cases hended with
      | budget hleft => omega
      | overflow fault _ _ hfault => exact absurd (Except.error.inj hresult) hfault
      | last _ hfits _ => simpa using hfits

theorem LoopRun.law_of_plain (hserving : Serving config outside envs escaping pages)
    (hrun : LoopRun outside target escaping pages maxOps left 0 none run count)
    (keyPrefix : String) (hbounded : requests run.trace ≤ maxOps)
    (hplain : PlainTokens escaping pages left) :
    UsageLaw pages maxOps keyPrefix (answered keyPrefix run) where
  bounded := hbounded
  tokens := by
    intro page url hasked
    obtain ⟨hle, hlt, hurl⟩ := (hrun.asked (page + 1) url).mp hasked
    have hcontinues := hrun.continues_before (show page < count by omega)
    obtain ⟨token, htoken, hread⟩ := hcontinues.read
    have hkept := hplain.kept page token ((hrun.reached_iff page).mpr ⟨by omega, by omega⟩) hlt
      hcontinues htoken
    rw [(trimmed_eq_iff escaping token).mpr hkept] at hread
    simp only [askedToken, Nat.zero_add, hread, hserving.signs] at hurl
    exact ⟨token, htoken, sentTokens_list _ _ _ _ _ hurl⟩
  totals := by
    intro answer hanswer
    have hended := hrun.ended
    unfold answered at hanswer
    generalize run.result = result at hended hanswer
    cases hended with
    | budget hleft => cases hanswer
    | overflow fault _ _ _ => cases hanswer
    | last hlt hfits hnone =>
        rw [Nat.zero_add] at hfits hnone hanswer
        have hbefore : ∀ page < count, (pages page).token ≠ none := by
          intro page hpage
          obtain ⟨token, htoken, -⟩ := (hrun.continues_before hpage).read
          simp [htoken]
        cases htoken : (pages count).token with
        | none => exact ⟨count, ⟨htoken, hbefore⟩, (Except.ok.inj hanswer).symm⟩
        | some token =>
            have hblank := (readToken_none_iff escaping (pages count)).mp hnone token htoken
            obtain ⟨last, hlast, hempty⟩ := hplain.blank count token
              ((hrun.reached_iff count).mpr ⟨hlt, Nat.le_refl _⟩) hfits htoken hblank
            have hle : count ≤ last := by
              by_contra hless
              exact hbefore last (by omega) hlast.1
            obtain ⟨hbytes, hobjects⟩ := totals_empty pages count last hle hempty
            refine ⟨last, hlast, ?_⟩
            rw [hbytes, hobjects]
            exact (Except.ok.inj hanswer).symm
  endless := by
    intro hendless
    have hended := hrun.ended
    unfold answered
    generalize run.result = result at hended
    cases hended with
    | budget hleft => rfl
    | overflow fault hlt hover _ =>
        rw [Nat.zero_add] at hover
        exact absurd (hplain.endless hendless count
          ((hrun.reached_iff count).mpr ⟨hlt, Nat.le_refl _⟩)) hover
    | last hlt hfits hnone =>
        rw [Nat.zero_add] at hfits hnone
        obtain ⟨token, htoken⟩ := Option.ne_none_iff_exists'.mp (hendless count)
        have hblank := (readToken_none_iff escaping (pages count)).mp hnone token htoken
        obtain ⟨last, hlast, -⟩ := hplain.blank count token
          ((hrun.reached_iff count).mpr ⟨hlt, Nat.le_refl _⟩) hfits htoken hblank
        exact absurd hlast.1 (hendless last)

end Law

/-- For every listing a store may serve, with any sizes, texts and tokens, and
every call of `usage` that gets to its first page: the law holds exactly when
the tokens are plain up to the limit. -/
theorem usage_law_iff [TextCrates] (access : S3Access) (config : SigningConfig)
    (outside : Outside) (envs : Nat → SigningEnv) (escaping : Escaping) (pages : Nat → ListPage)
    (target : ListTarget) (payload : String) (used : Nat)
    (hserving : Serving config outside envs escaping pages)
    (htarget : usageTarget access outside payload = .ok target) :
    UsageLaw pages access.maxOps target.keyPrefix (doUsage access outside payload used) ↔
      PlainTokens escaping pages (access.maxOps - used) := by
  obtain ⟨count, hrun⟩ := usageLoop_run hserving target access.maxOps (access.maxOps - used) 0 none
  rw [doUsage_answered access payload used htarget]
  constructor
  · exact hrun.plain_of_law hserving target.keyPrefix
  · apply hrun.law_of_plain hserving target.keyPrefix
    have hcounts := usageLoop_counts outside target access.maxOps (access.maxOps - used) 0 none
      (totalBytes pages 0) (totalObjects pages 0)
    omega

/-- The references text is written with in a page. -/
def xmlEscaping : Escaping where
  escape := fun c =>
    if c = '&' then "&amp;".toList
    else if c = '<' then "&lt;".toList
    else if c = '>' then "&gt;".toList
    else [c]
  shape := by
    intro c
    split
    · exact .inr ⟨"amp".toList, by decide, by decide⟩
    · split
      · exact .inr ⟨"lt".toList, by decide, by decide⟩
      · split
        · exact .inr ⟨"gt".toList, by decide, by decide⟩
        · exact .inl rfl
  markup := by decide
  digits := by
    intro c hdigit
    rw [if_neg, if_neg, if_neg] <;>
      · rintro rfl
        exact absurd hdigit (by decide)

/-- Two pages with one object each, and a token between them. -/
def twoPages (token : String) : Nat → ListPage
  | 0 => ⟨[.size 5, .token token], Nat.le_refl 1⟩
  | _ => ⟨[.size 7], Nat.zero_le 1⟩

section Documented

attribute [local instance] documentedCrates

def sampleStore (pages : Nat → ListPage) : Outside :=
  { refusingStore with
    listUrl := fun target _ token => buildListUrl sampleSigning sampleSigningConfig target token
    send := fun page _ => .answered 200 (.ok ((pages page).body xmlEscaping)) }

theorem sample_serving (pages : Nat → ListPage) :
    Serving sampleSigningConfig (sampleStore pages) (fun _ => sampleSigning) xmlEscaping pages where
  signs := fun _ _ _ => rfl
  signed := fun _ _ _ => ⟨_, rfl⟩
  serves := fun _ _ => ⟨200, rfl, rfl⟩

def sampleAccess : S3Access := ⟨sampleSigningConfig.toS3Config, true, false, 10⟩

theorem sample_target (pages : Nat → ListPage) :
    usageTarget sampleAccess (sampleStore pages) "" =
      .ok ⟨"https", "192.0.2.7:9000", "user-a/"⟩ := by
  have hhost : resolveHost (stdV6 fun _ => "") unresolved sampleSigningConfig.toS3Config false =
      .ok ("https", "192.0.2.7:9000") := sample_host
  simp only [usageTarget, sampleStore, refusingStore, sampleAccess, hhost]

/-- The token `a&b` goes back as `a&amp;b`. -/
theorem escaped_token_sent :
    ¬ UsageLaw (twoPages "a&b") sampleAccess.maxOps "user-a/"
      (doUsage sampleAccess (sampleStore (twoPages "a&b")) "" 0) := by
  intro hlaw
  rw [doUsage_answered sampleAccess "" 0 (sample_target _)] at hlaw
  obtain ⟨count, hrun⟩ := usageLoop_run (sample_serving (twoPages "a&b"))
    ⟨"https", "192.0.2.7:9000", "user-a/"⟩ sampleAccess.maxOps 10 0 none
  have hplain := hrun.plain_of_law (sample_serving (twoPages "a&b")) "user-a/" hlaw
  have hcontinues : Continues xmlEscaping (twoPages "a&b") 0 := by
    refine ⟨⟨by decide, by decide⟩, "a&b", rfl, ?_⟩
    rintro ⟨hkept, -⟩
    exact absurd (hkept '&' (by decide)) (by decide)
  have hkept := (hplain.kept 0 "a&b" ⟨by decide, by simp⟩ (by decide) hcontinues rfl).1
  exact absurd (hkept '&' (by decide)) (by decide)

/-- The token `1/x==` goes back as it is. -/
theorem usage_law_iff_plain :
    UsageLaw (twoPages "1/x==") sampleAccess.maxOps "user-a/"
      (doUsage sampleAccess (sampleStore (twoPages "1/x==")) "" 0) := by
  apply (usage_law_iff sampleAccess sampleSigningConfig (sampleStore (twoPages "1/x=="))
    (fun _ => sampleSigning) xmlEscaping (twoPages "1/x==") ⟨"https", "192.0.2.7:9000", "user-a/"⟩
    "" 0 (sample_serving _) (sample_target _)).mpr
  have hkept : xmlEscaping.Kept "1/x==" := by
    have hall : ("1/x==".toList.all fun c => xmlEscaping.escape c == [c]) = true := by decide
    intro c hc
    exact eq_of_beq (List.all_eq_true.mp hall c hc)
  have htoken : ∀ page token, (twoPages "1/x==" page).token = some token →
      page = 0 ∧ token = "1/x==" := by
    intro page token htoken
    cases page with
    | zero => exact ⟨rfl, (Option.some.inj htoken).symm⟩
    | succ page => cases htoken
  refine ⟨?_, ?_, ?_⟩
  · intro page token _ _ _ hissued
    obtain ⟨-, rfl⟩ := htoken page token hissued
    exact ⟨hkept, by decide⟩
  · intro page token _ _ hissued hblank
    obtain ⟨-, rfl⟩ := htoken page token hissued
    exact absurd (hblank.2 '1' (by decide)) (by decide)
  · intro hendless
    exact absurd rfl (hendless 1)

end Documented

end Runlet.S3
