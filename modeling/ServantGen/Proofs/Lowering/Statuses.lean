import Mathlib.Data.List.Pairwise
import ServantGen.Proofs.Json.Keys
import ServantGen.Proofs.Lowering.LeftOut
import ServantGen.Proofs.Text.Numerals

/-!
# The statuses of responses

The responses of a lowered operation have the statuses that the keys in the document spell, in
order. Several keys spell one status: letters may be of either case, and a number may have a plus
sign and zeros in front of it. So the statuses of an operation are different exactly where no two
of its keys spell the same one, for instance where each is written in the plain way.
-/

namespace ServantGen

/-! ## Keys -/

namespace Text

/-- There are no letters in numerals. -/
theorem isLower_toLower_of_numeral? {bound n : Nat} {cs : List Char}
    (h : numeral? bound cs = some n) : ∀ c ∈ cs, c.toLower.isLower = false := by
  have hdigit : ∀ c : Char, c.isDigit = true → c.toLower.isLower = false := by
    intro c hc
    rw [isDigit_iff] at hc
    have hupper : ¬c.isUpper = true := by
      rw [isUpper_iff]
      omega
    rw [toLower_of_not_isUpper hupper, ← Bool.not_eq_true, isLower_iff]
    omega
  obtain ⟨sign, digits, hsign, rfl, -, hdigits, -⟩ := exists_digits_of_numeral?_eq_some h
  refine List.forall_mem_append.2 ⟨?_, fun c hc => hdigit c (hdigits c hc)⟩
  obtain rfl | rfl := hsign
  · simp
  · rw [List.forall_mem_singleton]
    decide

end Text

namespace Status

/-- The keys that spell a status: its word, its number in decimal digits, or its first digit and two
letters. -/
inductive Spells (key : String) : Status → Prop
  | default (hkey : key.toList.map Char.toLower = "default".toList) : Spells key .default
  | code {sign : List Char} {zeros value : Nat} (hlow : 100 ≤ value) (hhigh : value ≤ 599)
    (hsign : sign = [] ∨ sign = ['+'])
    (hkey : key.toList = sign ++ List.replicate zeros '0' ++ Nat.toDigits 10 value) :
    Spells key (.code value)
  | range {digit : Nat} {x y : Char} (hlow : 1 ≤ digit) (hhigh : digit ≤ 5)
    (hx : x.toLower = 'x') (hy : y.toLower = 'x') (hkey : key.toList = [digit.digitChar, x, y]) :
    Spells key (.range digit)

variable {key : String} {status : Status}

theorem sameLetters_default_iff :
    Text.sameLetters key "default" = true ↔ key.toList.map Char.toLower = "default".toList := by
  rw [Text.sameLetters, beq_iff_eq]
  rfl

/-- A key with a letter is no number. -/
theorem numeral?_eq_none {c : Char} (hc : c ∈ key.toList) (hlower : c.toLower.isLower = true)
    (bound : Nat) : Text.numeral? bound key.toList = none := by
  by_contra hsome
  obtain ⟨n, hn⟩ := Option.ne_none_iff_exists'.1 hsome
  rw [Text.isLower_toLower_of_numeral? hn c hc] at hlower
  exact Bool.false_ne_true hlower

/-- A number is not the word of a status. -/
theorem not_sameLetters_default {bound value : Nat}
    (h : Text.numeral? bound key.toList = some value) :
    ¬ Text.sameLetters key "default" = true := by
  intro hdefault
  have hletter : 'd' ∈ key.toList.map Char.toLower := by
    rw [sameLetters_default_iff.1 hdefault]
    exact List.mem_cons_self
  obtain ⟨c, hc, hlower⟩ := List.mem_map.1 hletter
  have hnone := numeral?_eq_none hc (by rw [hlower]; rfl) bound
  exact Option.some_ne_none value (h.symm.trans hnone)

theorem digitChar_of_le {first : Char} (hlow : '1' ≤ first) (hhigh : first ≤ '5') :
    1 ≤ first.toNat - '0'.toNat ∧ first.toNat - '0'.toNat ≤ 5 ∧
      first = (first.toNat - '0'.toNat).digitChar := by
  have hrange : 49 ≤ first.toNat ∧ first.toNat ≤ 53 := ⟨hlow, hhigh⟩
  have hdigit : first.isDigit = true := Text.isDigit_iff.2 (by omega)
  have hvalue := Text.toDigits_of_isDigit hdigit
  have hbounds : 1 ≤ first.toNat - '0'.toNat ∧ first.toNat - '0'.toNat ≤ 5 := by
    change 1 ≤ first.toNat - 48 ∧ first.toNat - 48 ≤ 5
    omega
  rw [Nat.toDigits_of_lt_base (by omega), List.singleton_inj] at hvalue
  exact ⟨hbounds.1, hbounds.2, hvalue.symm⟩

theorem le_digitChar {digit : Nat} (hlow : 1 ≤ digit) (hhigh : digit ≤ 5) :
    '1' ≤ digit.digitChar ∧ digit.digitChar ≤ '5' ∧
      digit.digitChar.toNat - '0'.toNat = digit := by
  have hall : ∀ n < 6, 1 ≤ n → '1' ≤ n.digitChar ∧ n.digitChar ≤ '5' ∧
      n.digitChar.toNat - '0'.toNat = n := by decide
  exact hall digit (by omega) hlow

/-- What is read is spelled. The tests are made in the order of the rules: the word first, then the
number, and three characters last. -/
theorem spells_of_ofKey?_eq_some (h : ofKey? key = some status) : Spells key status := by
  rw [ofKey?] at h
  split at h
  · rename_i hdefault
    obtain rfl := Option.some.inj h
    exact .default (sameLetters_default_iff.1 hdefault)
  · split at h
    · rename_i value hvalue
      obtain ⟨hrange, heq⟩ := Option.ite_none_right_eq_some.1 h
      obtain rfl := Option.some.inj heq
      obtain ⟨-, sign, zeros, hsign, hkey⟩ := Text.numeral?_eq_some_iff.1 hvalue
      simp only [Bool.and_eq_true, decide_eq_true_eq] at hrange
      exact .code hrange.1 hrange.2 hsign hkey
    · split at h
      · rename_i first x y hkey
        obtain ⟨hletters, heq⟩ := Option.ite_none_right_eq_some.1 h
        obtain rfl := Option.some.inj heq
        simp only [Bool.and_eq_true, decide_eq_true_eq] at hletters
        obtain ⟨⟨⟨hx, hy⟩, hlow⟩, hhigh⟩ := hletters
        obtain ⟨hone, hfive, hfirst⟩ := digitChar_of_le hlow hhigh
        exact .range hone hfive hx hy (hfirst ▸ hkey)
      · simp at h

/-- What is spelled is read: a number is not taken for the word, and three characters with letters
among them are taken neither for the word nor for a number. -/
theorem Spells.ofKey?_eq_some (h : Spells key status) : ofKey? key = some status := by
  rw [ofKey?]
  cases h with
  | default hkey => rw [if_pos (sameLetters_default_iff.2 hkey)]
  | @code sign zeros value hlow hhigh hsign hkey =>
    have hvalue : Text.numeral? 65535 key.toList = some value :=
      Text.numeral?_eq_some_iff.2 ⟨by omega, sign, zeros, hsign, hkey⟩
    rw [if_neg (not_sameLetters_default hvalue)]
    simp [hvalue, hlow, hhigh]
  | @range digit x y hlow hhigh hx hy hkey =>
    have hletters : ¬ Text.sameLetters key "default" = true := by
      intro hdefault
      have hlength := congrArg List.length (sameLetters_default_iff.1 hdefault)
      rw [hkey] at hlength
      simp at hlength
    have hmem : x ∈ key.toList := by simp [hkey]
    have hvalue := numeral?_eq_none hmem (by rw [hx]; rfl) 65535
    obtain ⟨hone, hfive, hdigit⟩ := le_digitChar hlow hhigh
    rw [if_neg hletters]
    simp only [hvalue]
    simp only [hkey, hx, hy, hone, hfive, hdigit, decide_true, Bool.and_self, if_true]

/-- Exactly the spellings of a status are read as it. -/
theorem ofKey?_eq_some_iff : ofKey? key = some status ↔ Spells key status :=
  ⟨spells_of_ofKey?_eq_some, Spells.ofKey?_eq_some⟩

theorem Spells.unique {other : Status} (h : Spells key status) (hother : Spells key other) :
    status = other :=
  Option.some.inj (h.ofKey?_eq_some.symm.trans hother.ofKey?_eq_some)

/-- Two keys spell one status. -/
def Meet (left right : String) : Prop :=
  ∃ status, Spells left status ∧ Spells right status

/-! ## Lists of keys -/

/-- The statuses that keys spell, in the order of the keys; the other keys add none. -/
inductive ReadFrom : List String → List Status → Prop
  | nil : ReadFrom [] []
  | spelled {keys : List String} {statuses : List Status} {key : String} {status : Status}
    (hkey : Spells key status) (hrest : ReadFrom keys statuses) :
    ReadFrom (key :: keys) (status :: statuses)
  | other {keys : List String} {statuses : List Status} {key : String}
    (hkey : ∀ status, ¬ Spells key status) (hrest : ReadFrom keys statuses) :
    ReadFrom (key :: keys) statuses

namespace ReadFrom

variable {keys : List String} {statuses : List Status}

theorem mem_iff (h : ReadFrom keys statuses) :
    status ∈ statuses ↔ ∃ key ∈ keys, Spells key status := by
  induction h with
  | nil => simp
  | spelled hkey hrest ih =>
    rw [List.mem_cons, ih, List.exists_mem_cons_iff]
    exact or_congr_left ⟨fun heq => heq ▸ hkey, fun hspells => hspells.unique hkey⟩
  | other hkey hrest ih =>
    rw [ih, List.exists_mem_cons_iff]
    exact ⟨.inr, fun hspells => hspells.resolve_left (hkey status)⟩

/-- Statuses are different exactly where no two keys meet. -/
theorem nodup_iff (h : ReadFrom keys statuses) :
    statuses.Nodup ↔ keys.Pairwise fun left right => ¬ Meet left right := by
  induction h with
  | nil => simp
  | @spelled keys statuses key status hkey hrest ih =>
    rw [List.nodup_cons, List.pairwise_cons, ih, hrest.mem_iff]
    refine and_congr_left fun _ => ⟨fun hnew other hother => ?_, fun hnew => ?_⟩
    · rintro ⟨shared, hleft, hright⟩
      obtain rfl := hleft.unique hkey
      exact hnew ⟨other, hother, hright⟩
    · rintro ⟨other, hother, hspells⟩
      exact hnew other hother ⟨status, hkey, hspells⟩
  | other hkey hrest ih =>
    rw [List.pairwise_cons, ih]
    refine ⟨fun hpairs => ⟨fun other _ => ?_, hpairs⟩, And.right⟩
    rintro ⟨status, hleft, -⟩
    exact hkey status hleft

/-- Different keys that are written in the plain way do not meet. -/
theorem nodup_of_plain (h : ReadFrom keys statuses) (hkeys : keys.Nodup)
    (hplain : ∀ key ∈ keys, ∀ status, Spells key status → key = status.name) :
    statuses.Nodup := by
  rw [h.nodup_iff]
  refine List.Pairwise.imp_of_mem ?_ hkeys
  rintro left right hleft hright hne ⟨status, hspells, hspells'⟩
  exact hne ((hplain left hleft status hspells).trans (hplain right hright status hspells').symm)

end ReadFrom

end Status

/-! ## Operations -/

def OperationSite.statusKeys (operation : OperationSite) : List String :=
  (operation.node.membersAt "responses").map Prod.fst

def Operation.statuses (operation : Operation) : List Status :=
  operation.responses.map Response.status

theorem OperationSite.map_status_responses {document : Document} {operation : OperationSite}
    {responses : List ResponseSite} (h : operation.responses document = .ok responses) :
    responses.map ResponseSite.status = operation.statusKeys := by
  have hresolved := Outcomes.forall₂_of_mapM_eq_ok h
  rw [OperationSite.statusKeys, ← List.forall₂_eq_eq_eq, List.forall₂_map_left_iff,
    List.forall₂_map_right_iff]
  refine hresolved.flip.imp fun response entry hresponse => ?_
  obtain ⟨node, -, rfl⟩ := Outcomes.exists_of_map_eq_ok hresponse
  rfl

namespace Lowering

variable {setting : Setting}

/-- Responses that are lowered have the statuses that their keys spell. -/
theorem readFrom_of_answers {find : TypeFinder} {id location : String}
    {entries : List ResponseSite} {responses : List Response}
    (h : List.Forall₂ (LowersResponse setting find id location) (entries.filter hasStatus)
      responses) :
    Status.ReadFrom (entries.map ResponseSite.status) (responses.map Response.status) := by
  induction entries generalizing responses with
  | nil =>
    obtain rfl := List.forall₂_nil_left_iff.1 h
    exact .nil
  | cons entry entries ih =>
    cases hstatus : hasStatus entry with
    | true =>
      rw [List.filter_cons_of_pos hstatus] at h
      obtain ⟨response, rest, hfirst, hrest, rfl⟩ := List.forall₂_cons_left_iff.1 h
      exact .spelled (Status.ofKey?_eq_some_iff.1 hfirst.status) (ih hrest)
    | false =>
      rw [List.filter_cons_of_neg (by simp [hstatus])] at h
      refine .other (fun status hspells => ?_) (ih h)
      rw [hasStatus, Status.ofKey?_eq_some_iff.2 hspells] at hstatus
      exact Bool.noConfusion hstatus

/-- The operations of an interface have the responses that are read in the document. -/
theorem forall₂_statuses {sites : List OperationSite} {placed filled final : State} {api : Api}
    (h : Stages setting (typeOf setting setting.depth) api final sites placed filled) :
    List.Forall₂ (fun site operation => Status.ReadFrom site.statusKeys operation.statuses)
      sites api.operations := by
  have hfind := typeOf_thorough setting setting.depth
  have hoperations := @OmitsOk.mapM _ _ sites (lowerOperation setting _) _ _ fun site =>
    lowerOperation_omits hfind site
  obtain ⟨_, -, hright⟩ := (hoperations (omissions filled.notices)).result rfl h.operations
  obtain ⟨-, haccounts⟩ := hright api.operations rfl
  refine haccounts.imp fun site operation haccount => ?_
  obtain ⟨parameters, responses, haccount⟩ := haccount
  rw [← OperationSite.map_status_responses haccount.readResponses]
  exact readFrom_of_answers haccount.answers

/-- The operations of an interface answer with the statuses that their keys spell. No two of them
are the same exactly where no two keys spell one status, as where all are written plainly. -/
theorem statuses_of_run_eq_ok {api : Api} {notices : List Notice}
    (h : run setting = some ⟨.ok api, notices⟩) :
    ∃ sites, setting.document.operations = .ok sites ∧
      List.Forall₂ (fun site operation =>
        Status.ReadFrom site.statusKeys operation.statuses ∧
        (operation.statuses.Nodup ↔
          site.statusKeys.Pairwise fun left right => ¬ Status.Meet left right) ∧
        (site.statusKeys.Nodup →
          (∀ key ∈ site.statusKeys, ∀ status, Status.Spells key status → key = status.name) →
          operation.statuses.Nodup)) sites api.operations := by
  obtain ⟨⟨outcome, final⟩, hrun, hresult⟩ := Option.map_eq_some_iff.1 h
  obtain rfl : outcome = .ok api := congrArg Result.outcome hresult
  obtain ⟨sites, placed, filled, hstages⟩ := exists_stages hrun
  refine ⟨sites, hstages.read, (forall₂_statuses hstages).imp fun site operation hread => ?_⟩
  exact ⟨hread, hread.nodup_iff, hread.nodup_of_plain⟩

/-- Keys of every sort, of which no two spell one status. -/
theorem statuses_of_run_eq_ok_sorts :
    let tree : Json := .object [("info", .object []), ("paths", .object [
      ("/pets", .object [
        ("get", .object [("responses", .object [
          ("+0200", .object []), ("2xX", .object []), ("7", .object []),
          ("DEFAULT", .object []), ("404", .object [])])])])])]
    ∃ document api notices, Document.ofTree tree = .ok document ∧
      run ⟨document, Haskell.target⟩ = some ⟨.ok api, notices⟩ ∧
      api.operations.map Operation.statuses = [[.code 200, .range 2, .default, .code 404]] ∧
      ∃ sites, document.operations = .ok sites ∧
        List.Forall₂ (fun site operation =>
          Status.ReadFrom site.statusKeys operation.statuses ∧
          (operation.statuses.Nodup ↔
            site.statusKeys.Pairwise fun left right => ¬ Status.Meet left right) ∧
          (site.statusKeys.Nodup →
            (∀ key ∈ site.statusKeys, ∀ status, Status.Spells key status →
              key = status.name) →
            operation.statuses.Nodup)) sites api.operations := by
  intro tree
  have hview : ((Document.ofTree tree).toOption.bind fun document =>
      (run ⟨document, Haskell.target⟩).bind fun result => result.outcome.toOption.map fun api =>
        api.operations.map Operation.statuses) =
      some [[.code 200, .range 2, .default, .code 404]] := by
    decide +kernel
  obtain ⟨document, api, notices, hdocument, hrun, hstatuses⟩ := exists_run_of_view hview
  exact ⟨document, api, notices, hdocument, hrun, hstatuses, statuses_of_run_eq_ok hrun⟩

/-- Two keys that meet: a number with and without a zero in front. -/
theorem same_status_twice :
    let tree : Json := .object [("info", .object []), ("paths", .object [
      ("/", .object [
        ("get", .object [("responses", .object [
          ("200", .object []), ("0200", .object [])])])])])]
    tree.hasDistinctKeys = true ∧
      ∃ document api notices, Document.ofTree tree = .ok document ∧
        run ⟨document, Haskell.target⟩ = some ⟨.ok api, notices⟩ ∧
        ∃ operation ∈ api.operations, operation.statuses = [.code 200, .code 200] ∧
          ¬ operation.statuses.Nodup := by
  intro tree
  have hview : ((Document.ofTree tree).toOption.bind fun document =>
      (run ⟨document, Haskell.target⟩).bind fun result => result.outcome.toOption.map fun api =>
        api.operations.map Operation.statuses) = some [[.code 200, .code 200]] := by
    decide +kernel
  obtain ⟨document, api, notices, hdocument, hrun, hstatuses⟩ := exists_run_of_view hview
  obtain ⟨operation, hmem, hboth⟩ := List.mem_map.1 (hstatuses ▸ List.mem_singleton_self _)
  refine ⟨by decide, document, api, notices, hdocument, hrun, operation, hmem, hboth, ?_⟩
  rw [hboth]
  decide

end Lowering

end ServantGen
