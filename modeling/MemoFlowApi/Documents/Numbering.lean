import Mathlib.Data.List.Range
import MemoFlowApi.Concurrency.Typestate
import MemoFlowApi.Documents.UseCases

/-!
# Version Numbers

A save reads the highest version number of its document, reads the clock and inserts the next
number.  An insert that the unique index accepts has the number that follows all others, so no save
can have stored a version since its read, and the clock was read after every stored time.
-/

namespace MemoFlowApi.Documents

open Concurrency

/-! ## Numbered collections -/

/-- The versions of a document, newest first, are numbered down to one, and none is older than the
ones below it. -/
structure VersionCollection.Numbered (versions : VersionCollection) (documentId : DocumentId) :
    Prop where
  numbers : (versions.ofDocument documentId).map (·.version) =
    (List.range' 1 (versions.ofDocument documentId).length).reverse
  ordered : (versions.ofDocument documentId).Pairwise fun newer older ↦ older.savedAt ≤ newer.savedAt

namespace VersionCollection

variable {versions : VersionCollection} {documentId : DocumentId}

theorem mem_ofDocument {version : DocumentVersion} :
    version ∈ versions.ofDocument documentId ↔
      version ∈ versions.docs ∧ version.documentId = documentId := by
  unfold ofDocument
  rw [List.mem_filter, decide_eq_true_iff]

/-- The versions of a document after an insert. -/
theorem ofDocument_insert (documentId : DocumentId) {data : NewVersion}
    (fresh : data.key ∉ versions.docs.map (·.key)) :
    (versions.insert data fresh).ofDocument documentId =
      if data.documentId = documentId then
        { data with id := versions.docs.length } :: versions.ofDocument documentId
      else versions.ofDocument documentId := by
  unfold ofDocument insert
  rw [List.filter_cons]
  simp only [decide_eq_true_eq]

/-- The highest number is the number of versions. -/
theorem Numbered.maxVersion (numbered : versions.Numbered documentId) :
    (versions.maxVersion documentId).getD 0 = (versions.ofDocument documentId).length := by
  unfold VersionCollection.maxVersion
  rw [numbered.numbers]
  generalize (versions.ofDocument documentId).length = count
  cases count with
  | zero => rfl
  | succ count =>
    have hmax : (List.range' 1 (count + 1)).reverse.max? = some (count + 1) := by
      refine List.max?_eq_some_iff.mpr ⟨?_, fun number hnumber ↦ ?_⟩
      · rw [List.mem_reverse, List.mem_range'_1]
        omega
      · rw [List.mem_reverse, List.mem_range'_1] at hnumber
        omega
    rw [hmax, Option.getD_some]

/-- A positive number that is free lies above all others. -/
theorem Numbered.length_lt (numbered : versions.Numbered documentId) {data : NewVersion}
    (own : data.documentId = documentId) (positive : 0 < data.version)
    (fresh : data.key ∉ versions.docs.map (·.key)) :
    (versions.ofDocument documentId).length < data.version := by
  by_contra hle
  have hmem : data.version ∈ (versions.ofDocument documentId).map (·.version) := by
    rw [numbered.numbers, List.mem_reverse, List.mem_range'_1]
    omega
  obtain ⟨version, hversion, hnumber⟩ := List.mem_map.mp hmem
  obtain ⟨hstored, hdocument⟩ := mem_ofDocument.mp hversion
  refine fresh (List.mem_map.mpr ⟨version, hstored, ?_⟩)
  exact Prod.ext (hdocument.trans own.symm) hnumber

/-- Inserting the next number at a time behind all others keeps a collection numbered. -/
theorem Numbered.insert (numbered : versions.Numbered documentId) {data : NewVersion}
    (fresh : data.key ∉ versions.docs.map (·.key))
    (next : data.documentId = documentId →
      data.version = (versions.ofDocument documentId).length + 1 ∧
        ∀ version ∈ versions.ofDocument documentId, version.savedAt ≤ data.savedAt) :
    (versions.insert data fresh).Numbered documentId := by
  have hafter := ofDocument_insert documentId fresh
  by_cases hown : data.documentId = documentId
  · rw [if_pos hown] at hafter
    obtain ⟨hversion, hsaved⟩ := next hown
    constructor
    · rw [hafter, List.map_cons, numbered.numbers, List.length_cons]
      calc
        _ = (1 + (versions.ofDocument documentId).length) ::
            (List.range' 1 (versions.ofDocument documentId).length).reverse := by
          rw [Nat.add_comm 1]
          exact congrArg (· :: _) hversion
        _ = (List.range' 1 (versions.ofDocument documentId).length ++
            [1 + (versions.ofDocument documentId).length]).reverse := by rw [List.reverse_concat]
        _ = _ := by rw [← List.range'_1_concat]
    · rw [hafter]
      exact List.pairwise_cons.mpr ⟨hsaved, numbered.ordered⟩
  · rw [if_neg hown] at hafter
    constructor
    · rw [hafter]
      exact numbered.numbers
    · rw [hafter]
      exact numbered.ordered

/-- Of two versions the one with the lower number is not the newer one. -/
def InOrder (a b : DocumentVersion) : Prop :=
  a.version < b.version ∧ a.savedAt ≤ b.savedAt ∨ b.version < a.version ∧ b.savedAt ≤ a.savedAt

instance : Std.Symm InOrder := ⟨fun _ _ ↦ Or.symm⟩

theorem Numbered.inOrder (numbered : versions.Numbered documentId) :
    (versions.ofDocument documentId).Pairwise InOrder := by
  have hnumbers : (versions.ofDocument documentId).Pairwise fun a b ↦ b.version < a.version := by
    rw [← List.pairwise_map (R := fun m n ↦ n < m), numbered.numbers, List.pairwise_reverse]
    exact List.pairwise_lt_range'
  exact hnumbers.imp₂ (fun a b hnumber hsaved ↦ .inr ⟨hnumber, hsaved⟩) numbered.ordered

/-- Later versions have higher numbers. -/
theorem Numbered.savedAt_le (numbered : versions.Numbered documentId) {a b : DocumentVersion}
    (ha : a ∈ versions.ofDocument documentId) (hb : b ∈ versions.ofDocument documentId)
    (h : a.version ≤ b.version) : a.savedAt ≤ b.savedAt := by
  by_cases hsame : a = b
  · rw [hsame]
  · have horder : InOrder a b := numbered.inOrder.forall ha hb hsame
    unfold InOrder at horder
    omega

/-- A listing by time, newest first, is a listing by version up to equal times. -/
theorem Numbered.listing (numbered : versions.Numbered documentId) {listing : List DocumentVersion}
    (perm : listing.Perm (versions.ofDocument documentId))
    (newestFirst : listing.Pairwise fun a b ↦ b.savedAt ≤ a.savedAt) :
    listing.Pairwise fun a b ↦ b.version < a.version ∨ a.savedAt = b.savedAt := by
  have horder : listing.Pairwise InOrder := (perm.pairwise_iff Or.symm).mpr numbered.inOrder
  refine horder.imp₂ (fun a b hab hsaved ↦ ?_) newestFirst
  unfold InOrder at hab
  omega

end VersionCollection

/-! ## Saves -/

structure SaveVersionInput where
  userId : UserId
  documentId : DocumentId
  label : Option String

def SaveVersionInput.program (input : SaveVersionInput) : Async DocumentVersion :=
  saveVersion input.userId input.documentId input.label

/-- How far a save has come. -/
inductive Attempt where
  | looking
  | numbered (version : ℕ)
  | stamped (version savedAt : ℕ)
  | stored (version : DocumentVersion)

/-- The version that an outcome stored. -/
def storedVersion (op : Op) (o : Outcome HttpError (Ans op)) : Option DocumentVersion :=
  match op, o with
  | .insertVersion _, .returned (.stored version) => some version
  | _, _ => none

/-- The calls of a save of a document. -/
inductive Saves (documentId : DocumentId) :
    Attempt → (op : Op) → Outcome HttpError (Ans op) → Attempt → Prop
  | findDocument {id o} : Saves documentId .looking (.findDocument id) o .looking
  | findByDocument {id o} : Saves documentId .looking (.findByDocument id) o .looking
  | read {max : Option ℕ} : Saves documentId .looking (.maxVersion documentId) (.returned max)
      (.numbered (max.getD 0 + 1))
  | readFailed {o} (failed : o.Failed) : Saves documentId .looking (.maxVersion documentId) o .looking
  | stamp {version savedAt} : Saves documentId (.numbered version) .now (.returned savedAt)
      (.stamped version savedAt)
  | rejected {version savedAt} {data : NewVersion} {result : InsertResult}
      (own : data.documentId = documentId) (number : data.version = version)
      (rejected : storedVersion (.insertVersion data) (.returned result) = none) :
      Saves documentId (.stamped version savedAt) (.insertVersion data) (.returned result) .looking
  | insert {version savedAt} {data : NewVersion} {saved : DocumentVersion}
      (own : data.documentId = documentId) (number : data.version = version)
      (time : data.savedAt = savedAt) : Saves documentId (.stamped version savedAt)
        (.insertVersion data) (.returned (.stored saved)) (.stored saved)

section Conformance

variable {ι : Type} {i : ι}

/-- What a save of a document follows. -/
def saves (documentId : DocumentId) : Typestate Ans HttpError Attempt := ⟨Saves documentId⟩

theorem createNext_follows (data : CreateDocumentVersionData) {onDuplicate : Async DocumentVersion}
    (h : onDuplicate.wp ((saves data.documentId).spec ((world ι).Possible HttpError i))
      (fun version φ ↦ φ = .stored version) (fun _ φ ↦ φ = .looking) .looking) :
    (createNext data onDuplicate).wp
      ((saves data.documentId).spec ((world ι).Possible HttpError i))
      (fun version φ ↦ φ = .stored version) (fun _ φ ↦ φ = .looking) .looking := by
  unfold createNext
  rw [Program.wp_bind]
  refine Typestate.wp_perform (fun max _ ↦ ⟨_, .read, ?_⟩) (fun _ _ ↦ ⟨_, .readFailed trivial, rfl⟩)
    (fun _ _ ↦ ⟨_, .readFailed trivial, rfl⟩)
  rw [Program.wp_bind]
  refine World.wp_answered Bool.false_ne_true fun savedAt ↦ ⟨_, .stamp, ?_⟩
  rw [Program.wp_bind]
  refine World.wp_answered Bool.false_ne_true fun result ↦ ?_
  cases result with
  | stored version => exact ⟨_, .insert rfl rfl rfl, rfl⟩
  | duplicateKey => exact ⟨_, .rejected rfl rfl rfl, h⟩
  | invalid => exact ⟨_, .rejected rfl rfl rfl, rfl⟩
  | failed => exact ⟨_, .rejected rfl rfl rfl, rfl⟩

/-- A save that returns has stored its version, a save that throws none. -/
theorem saveVersion_follows (input : SaveVersionInput) :
    input.program.wp ((saves input.documentId).spec ((world ι).Possible HttpError i))
      (fun version φ ↦ φ = .stored version) (fun _ φ ↦ φ = .looking) .looking := by
  unfold SaveVersionInput.program saveVersion
  rw [Program.wp_bind]
  refine Typestate.wp_perform (fun document _ ↦ ⟨_, .findDocument, ?_⟩)
    (fun _ _ ↦ ⟨_, .findDocument, rfl⟩) (fun _ _ ↦ ⟨_, .findDocument, rfl⟩)
  cases document with
  | none => rfl
  | some document =>
    dsimp only
    split
    · rfl
    · rw [Program.wp_bind]
      refine Typestate.wp_perform (fun sections _ ↦ ⟨_, .findByDocument, ?_⟩)
        (fun _ _ ↦ ⟨_, .findByDocument, rfl⟩) (fun _ _ ↦ ⟨_, .findByDocument, rfl⟩)
      exact createNext_follows ⟨input.documentId, _, _, _⟩ (createNext_follows _ rfl)

end Conformance

/-! ## Runs of saves -/

/-- What a save that has come so far knows about the versions of its document. -/
def Attempting (s : Store) (documentId : DocumentId) : Attempt → Prop
  | .numbered version =>
      0 < version ∧ version ≤ (s.versions.ofDocument documentId).length + 1
  | .stamped version savedAt =>
      0 < version ∧ version ≤ (s.versions.ofDocument documentId).length + 1 ∧ savedAt ≤ s.clock ∧
        (version = (s.versions.ofDocument documentId).length + 1 →
          ∀ stored ∈ s.versions.ofDocument documentId, stored.savedAt ≤ savedAt)
  | _ => True

/-- The version that a save has stored. -/
def Attempt.version : Attempt → Option DocumentVersion
  | .stored version => some version
  | _ => none

abbrev Call (ι : Type) := Event ι Store Ans HttpError

/-- The versions that calls stored, newest first. -/
def storedVersions {ι : Type} (trace : List (Call ι)) : List DocumentVersion :=
  trace.filterMap fun event ↦ storedVersion event.op event.outcome

/-- The invariant of saves. -/
structure Saving {ι : Type} [DecidableEq ι] (inputs : ι → SaveVersionInput) (start : Store)
    (s : Store) (φ : ι → Attempt) (trace : List (Call ι)) : Prop where
  numbered : ∀ documentId, s.versions.Numbered documentId
  past : ∀ version ∈ s.versions.docs, version.savedAt ≤ s.clock
  attempting : ∀ i, Attempting s (inputs i).documentId (φ i)
  stored : ∀ i, storedVersions (trace.filter (·.caller = i)) = (φ i).version.toList
  docs : s.versions.docs = storedVersions trace ++ start.versions.docs

section Runs

variable {ι : Type} [DecidableEq ι] {inputs : ι → SaveVersionInput} {start s s' : Store}
  {φ : ι → Attempt} {trace : List (Call ι)} {i : ι} {op : Op} {o : Outcome HttpError (Ans op)}
  {φ' : Attempt}

/-- What a save knows stays true while its document gains versions and the clock runs. -/
theorem Attempting.mono {documentId : DocumentId} {attempt : Attempt}
    (h : Attempting s documentId attempt) (clock : s.clock ≤ s'.clock)
    (versions : s'.versions.ofDocument documentId = s.versions.ofDocument documentId ∨
      (s.versions.ofDocument documentId).length < (s'.versions.ofDocument documentId).length) :
    Attempting s' documentId attempt := by
  cases attempt with
  | looking => trivial
  | stored version => trivial
  | numbered version =>
    obtain ⟨hpositive, hle⟩ := h
    rcases versions with hsame | hmore
    · exact ⟨hpositive, hsame ▸ hle⟩
    · exact ⟨hpositive, by omega⟩
  | stamped version savedAt =>
    obtain ⟨hpositive, hle, hpast, hlast⟩ := h
    rcases versions with hsame | hmore
    · exact ⟨hpositive, hsame ▸ hle, hpast.trans clock, hsame ▸ hlast⟩
    · exact ⟨hpositive, by omega, hpast.trans clock, fun heq ↦ by omega⟩

omit [DecidableEq ι] in
theorem storedVersions_cons (event : Call ι) :
    storedVersions (event :: trace) =
      (storedVersion event.op event.outcome).toList ++ storedVersions trace := by
  unfold storedVersions
  rw [List.filterMap_cons]
  cases storedVersion event.op event.outcome <;> rfl

/-- What a caller has stored after its call. -/
theorem Saving.stored_step (h : Saving inputs start s φ trace)
    (new : (storedVersion op o).toList ++ (φ i).version.toList = φ'.version.toList) (j : ι) :
    storedVersions ((⟨s, i, op, o⟩ :: trace : List (Call ι)).filter (·.caller = j)) =
      (Function.update φ i φ' j).version.toList := by
  by_cases hj : i = j
  · subst hj
    rw [List.filter_cons_of_pos (by simp), storedVersions_cons, h.stored, Function.update_self]
    exact new
  · rw [List.filter_cons_of_neg (by simpa using hj), h.stored, Function.update_of_ne (Ne.symm hj)]

/-- A call that stores nothing keeps the invariant. -/
theorem Saving.keep (h : Saving inputs start s φ trace) (versions : s'.versions = s.versions)
    (clock : s.clock ≤ s'.clock) (nothing : storedVersion op o = none)
    (same : (φ i).version = φ'.version) (attempting : Attempting s' (inputs i).documentId φ') :
    Saving inputs start s' (Function.update φ i φ') (⟨s, i, op, o⟩ :: trace) where
  numbered documentId := by
    rw [versions]
    exact h.numbered documentId
  past version hversion := by
    rw [versions] at hversion
    exact (h.past version hversion).trans clock
  attempting j := by
    by_cases hj : j = i
    · subst hj
      rw [Function.update_self]
      exact attempting
    · rw [Function.update_of_ne hj]
      exact (h.attempting j).mono clock (.inl (by rw [versions]))
  stored := h.stored_step (by rw [nothing, same]; rfl)
  docs := by
    rw [versions, h.docs, storedVersions_cons, nothing]
    rfl

/-- A read of a save that goes on looking. -/
theorem Saving.query (h : Saving inputs start s φ trace) (phase : φ i = .looking)
    (reads : ∀ reply, (answer reply op s).2 = s)
    (nothing : ∀ o : Outcome HttpError (Ans op), storedVersion op o = none)
    (answers : (world ι).Answers HttpError i op s o s') :
    Saving inputs start s' (Function.update φ i .looking) (⟨s, i, op, o⟩ :: trace) := by
  have hsame : s' = s := by
    rcases answers.unchanged_or_effect with hsame | ⟨_, reply, heffect⟩
    · exact hsame
    · exact (congrArg Prod.snd (Option.some.inj heffect)).symm.trans (reads reply)
  subst hsame
  exact h.keep rfl le_rfl (nothing o) (by rw [phase]) trivial

/-- The two ways of an insert. -/
theorem insertVersion_eq {refused : Bool} {data : NewVersion} {result : InsertResult}
    (h : s.insertVersion refused data = (result, s')) :
    s' = s ∧ storedVersion (.insertVersion data) (.returned result) = none ∨
      ∃ fresh, result = .stored { data with id := s.versions.docs.length } ∧
        s' = { s with versions := s.versions.insert data fresh } := by
  unfold Store.insertVersion at h
  split at h
  · cases h
    exact .inl ⟨rfl, rfl⟩
  · split at h
    · cases h
      exact .inl ⟨rfl, rfl⟩
    · split at h
      · next fresh =>
        cases h
        exact .inr ⟨fresh, rfl, rfl⟩
      · cases h
        exact .inl ⟨rfl, rfl⟩

/-- A save that stores a version keeps the invariant. -/
theorem Saving.insert (h : Saving inputs start s φ trace) {data : NewVersion} {saved : DocumentVersion}
    {version savedAt : ℕ} (phase : φ i = .stamped version savedAt)
    (own : data.documentId = (inputs i).documentId) (number : data.version = version)
    (time : data.savedAt = savedAt) (fresh : data.key ∉ s.versions.docs.map (·.key))
    (result : saved = { data with id := s.versions.docs.length }) :
    Saving inputs start { s with versions := s.versions.insert data fresh }
      (Function.update φ i (.stored saved))
      (⟨s, i, .insertVersion data, .returned (.stored saved)⟩ :: trace) := by
  have hknown := h.attempting i
  rw [phase] at hknown
  obtain ⟨hpositive, hle, hpast, hlast⟩ := hknown
  have hlt := (h.numbered (inputs i).documentId).length_lt own (number ▸ hpositive) fresh
  have hnext : version = (s.versions.ofDocument (inputs i).documentId).length + 1 := by omega
  constructor
  · intro documentId
    refine (h.numbered documentId).insert fresh fun hown ↦ ?_
    obtain rfl : (inputs i).documentId = documentId := own.symm.trans hown
    exact ⟨number.trans hnext, time ▸ hlast hnext⟩
  · intro stored hstored
    rcases List.mem_cons.mp hstored with rfl | hold
    · exact (time.trans_le hpast : data.savedAt ≤ s.clock)
    · exact h.past stored hold
  · intro j
    by_cases hj : j = i
    · subst hj
      rw [Function.update_self]
      trivial
    · rw [Function.update_of_ne hj]
      refine (h.attempting j).mono le_rfl ?_
      rw [VersionCollection.ofDocument_insert]
      split
      · exact .inr (Nat.lt_succ_self _)
      · exact .inl rfl
  · exact h.stored_step (by rw [phase]; rfl)
  · rw [storedVersions_cons, List.append_assoc, ← h.docs, result]
    rfl

/-- Every call of a save keeps the invariant. -/
theorem Saving.step (h : Saving inputs start s φ trace)
    (answers : (world ι).Answers HttpError i op s o s')
    (next : Saves (inputs i).documentId (φ i) op o φ') :
    Saving inputs start s' (Function.update φ i φ') (⟨s, i, op, o⟩ :: trace) := by
  have hknown := h.attempting i
  generalize hphase : φ i = phase at next hknown
  cases next with
  | findDocument => exact h.query hphase (fun _ ↦ rfl) (fun _ ↦ rfl) answers
  | findByDocument => exact h.query hphase (fun _ ↦ rfl) (fun _ ↦ rfl) answers
  | readFailed => exact h.query hphase (fun _ ↦ rfl) (fun _ ↦ rfl) answers
  | read =>
    cases answers with
    | returned effect =>
      obtain ⟨_, heffect⟩ := effect
      cases heffect
      have hmax := (h.numbered (inputs i).documentId).maxVersion
      refine h.keep rfl le_rfl rfl (by rw [hphase]; rfl) ⟨Nat.succ_pos _, ?_⟩
      rw [hmax]
  | stamp =>
    cases answers with
    | returned effect =>
      obtain ⟨reply, heffect⟩ := effect
      cases heffect
      obtain ⟨hpositive, hle⟩ := hknown
      refine h.keep rfl (Nat.le_add_right _ _) rfl (by rw [hphase]; rfl)
        ⟨hpositive, hle, le_rfl, fun _ stored hstored ↦ ?_⟩
      have hmem := (VersionCollection.mem_ofDocument.mp hstored).1
      exact (h.past stored hmem).trans (Nat.le_add_right _ _)
  | rejected own number rejected =>
    cases answers with
    | returned effect =>
      obtain ⟨reply, heffect⟩ := effect
      rcases insertVersion_eq (Option.some.inj heffect) with ⟨rfl, -⟩ | ⟨_, rfl, -⟩
      · exact h.keep rfl le_rfl rejected (by rw [hphase]; rfl) trivial
      · cases rejected
  | insert own number time =>
    cases answers with
    | returned effect =>
      obtain ⟨reply, heffect⟩ := effect
      rcases insertVersion_eq (Option.some.inj heffect) with ⟨-, hnone⟩ | ⟨fresh, hresult, rfl⟩
      · cases hnone
      · exact h.insert hphase own number time fresh (InsertResult.stored.inj hresult)

end Runs

/-- A database whose versions are numbered and were saved in the past. -/
structure Store.VersionsValid (s : Store) : Prop where
  numbered : ∀ documentId, s.versions.Numbered documentId
  past : ∀ version ∈ s.versions.docs, version.savedAt ≤ s.clock

/-- However saves interleave, the versions of every document are numbered without gap or repetition,
in the order of their times; a save that returns has stored its version only, a save that throws
none. -/
theorem versions_numbered {ι : Type} [DecidableEq ι] {start : Store} (valid : start.VersionsValid)
    {inputs : ι → SaveVersionInput} {config : Config ι Store Ans HttpError DocumentVersion}
    (reachable : (world ι).Reachable (Config.initial start fun i ↦ (inputs i).program) config) :
    (∀ documentId, config.shared.versions.Numbered documentId) ∧
    (∀ documentId, ∀ a ∈ config.shared.versions.ofDocument documentId,
      ∀ b ∈ config.shared.versions.ofDocument documentId,
        a.version ≤ b.version → a.savedAt ≤ b.savedAt) ∧
    (∀ documentId, ∀ listing : List DocumentVersion,
      listing.Perm (config.shared.versions.ofDocument documentId) →
      listing.Pairwise (fun a b ↦ b.savedAt ≤ a.savedAt) →
        listing.Pairwise fun a b ↦ b.version < a.version ∨ a.savedAt = b.savedAt) ∧
    config.shared.versions.docs = storedVersions config.trace ++ start.versions.docs ∧
    ∀ i, (∀ version, config.threads i = .pure version →
        storedVersions (config.trace.filter (·.caller = i)) = [version]) ∧
      ∀ error, config.threads i = .throw error →
        storedVersions (config.trace.filter (·.caller = i)) = [] := by
  have hfollows : ∀ i, (inputs i).program.wp
      ((saves (inputs i).documentId).spec ((world ι).Possible HttpError i))
      (fun version φ ↦ φ = .stored version) (fun _ φ ↦ φ = .looking) .looking :=
    fun i ↦ saveVersion_follows (inputs i)
  obtain ⟨φ, htracked, hconform⟩ := World.exists_tracked
    (T := fun i ↦ saves (inputs i).documentId) rfl hfollows reachable
  have hstart : Saving inputs start start (fun _ ↦ .looking) ([] : List (Call ι)) :=
    ⟨valid.numbered, valid.past, fun _ ↦ trivial, fun _ ↦ rfl, rfl⟩
  have hsaving := htracked.invariant (Saving inputs start) (fun _ ↦ True) hstart
    (fun h _ answers next ↦ h.step answers next) fun _ _ ↦ trivial
  refine ⟨hsaving.numbered, fun documentId a ha b hb ↦ (hsaving.numbered documentId).savedAt_le ha hb,
    fun documentId listing ↦ (hsaving.numbered documentId).listing, hsaving.docs, fun i ↦ ⟨?_, ?_⟩⟩
  · intro version hthread
    have hphase := hconform i
    rw [hthread, Program.wp_pure] at hphase
    rw [hsaving.stored, hphase]
    rfl
  · intro error hthread
    have hphase := hconform i
    rw [hthread, Program.wp_throw] at hphase
    rw [hsaving.stored, hphase]
    rfl

theorem Store.versionsValid_ofDocument (document : Document) :
    (Store.ofDocument document).VersionsValid where
  numbered _ := ⟨rfl, List.Pairwise.nil⟩
  past _ h := by cases h

/-- Two saves that read the same highest number: the first insert wins, and the second save retries. -/
def contended : List (Move Bool Reply HttpError) :=
  [⟨false, {}, .returned ()⟩, ⟨true, {}, .returned ()⟩, ⟨false, {}, .returned ()⟩,
    ⟨true, {}, .returned ()⟩, ⟨false, {}, .returned ()⟩, ⟨true, {}, .returned ()⟩,
    ⟨false, { elapsed := 5 }, .returned ()⟩, ⟨true, { elapsed := 2 }, .returned ()⟩,
    ⟨true, {}, .returned ()⟩, ⟨false, {}, .returned ()⟩, ⟨false, {}, .returned ()⟩,
    ⟨false, { elapsed := 2 }, .returned ()⟩, ⟨false, {}, .returned ()⟩]

/-- Numbers and times of the stored versions. -/
def Store.savedTimes (s : Store) : List (ℕ × ℕ) :=
  s.versions.docs.map fun version ↦ (version.version, version.savedAt)

theorem versions_numbered_contended :
    ∃ config : Config Bool Store Ans HttpError DocumentVersion,
      config.shared.savedTimes = [(2, 9), (1, 7)] ∧ config.shared.versions.Numbered memo.id := by
  have hreplay : (machine.replay (Config.initial (Store.ofDocument memo) fun _ ↦
      SaveVersionInput.program ⟨ada, memo.id, none⟩) contended).map (·.shared.savedTimes) =
      some [(2, 9), (1, 7)] := by decide +kernel
  obtain ⟨config, hreachable, hview⟩ := machine.exists_reachable hreplay
  have hnumbered := versions_numbered (Store.versionsValid_ofDocument memo) hreachable
  exact ⟨config, hview, hnumbered.1 memo.id⟩

end MemoFlowApi.Documents
