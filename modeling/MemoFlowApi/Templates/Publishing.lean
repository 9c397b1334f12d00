import MemoFlowApi.Concurrency.Typestate
import MemoFlowApi.Templates.UseCases

/-!
# Published Templates

The early checks of an update see a template as it was before the transaction, and another request
may publish the template in the meantime.  What protects a published template is the check that is
made again under the row lock: while a user who is no admin holds the lock and goes on, the committed
template is not published, and only its own sections are written (`Holding`).
-/

namespace MemoFlowApi.Templates

open Concurrency Sql

/-! ## Calls of a request -/

/-- How far a request has come. -/
inductive Phase where
  /-- Nothing is locked. -/
  | clean
  /-- The row of a template is locked. -/
  | holding (id : TemplateId)
  /-- The locked row was read again. -/
  | reread (id : TemplateId) (entity : TemplateRow)
  /-- A statement failed. -/
  | broken
  | committed

/-- The calls of a request. -/
inductive Moves (role : UserRole) : Phase → (op : Op) → Outcome TemplateError (Ans op) → Phase → Prop
  | start {o} : Moves role .clean .startTransaction o .clean
  | findTemplate {φ id o} : Moves role φ (.findTemplate id) o φ
  | findSections {φ id o} : Moves role φ (.findSections id) o φ
  | missing {id} : Moves role .clean (.lockTemplate id) (.returned none) .clean
  | lock {id} {row : TemplateRow} (unpublished : role ≠ .admin → row.isPublished = false) :
      Moves role .clean (.lockTemplate id) (.returned (some row)) (.holding id)
  | insert {id} {row : TemplateRow} (unpublished : role ≠ .admin → row.isPublished = false) :
      Moves role .clean (.insertTemplate row) (.returned id) (.holding id)
  | reread {id entity} :
      Moves role (.holding id) (.findTemplate id) (.returned (some entity)) (.reread id entity)
  | update {id entity row}
      (unpublished : role ≠ .admin → entity.isPublished = false → row.isPublished = false) :
      Moves role (.reread id entity) (.updateTemplate id row) (.returned ()) (.holding id)
  | deleteSections {id} :
      Moves role (.holding id) (.deleteSections id) (.returned ()) (.holding id)
  | insertSections {id sections stored} :
      Moves role (.holding id) (.insertSections id sections) (.returned stored) (.holding id)
  | fail {φ op o} (uncommitted : φ ≠ .committed) (failed : op ≠ .commitTransaction) :
      Moves role φ op o .broken
  | commit {id} : Moves role (.holding id) .commitTransaction (.returned ()) .committed
  | rollback {φ o} (uncommitted : φ ≠ .committed) : Moves role φ .rollbackTransaction o .clean
  | emit {event o} : Moves role .committed (.emit event) o .committed

section Conformance

variable {ι : Type} [DecidableEq ι] {i : ι} {role : UserRole}

/-- What the requests of a user with a role follow. -/
def moves (role : UserRole) : Typestate Ans TemplateError Phase := ⟨Moves role⟩

/-- The calls that are possible. -/
abbrev Answered (i : ι) := (world ι).Possible TemplateError i

/-- Within a transaction a call that fails ends the work. -/
theorem wp_statement {op : Op} {Q : Ans op → Phase → Prop} {φ : Phase}
    (uncommitted : φ ≠ .committed) (statement : op ≠ .commitTransaction)
    (returned : ∀ answer, ∃ φ', Moves role φ op (.returned answer) φ' ∧ Q answer φ') :
    (await op).wp ((moves role).spec (Answered i)) Q (fun _ φ ↦ φ ≠ .committed) φ := by
  have hbroken : Phase.broken ≠ .committed := by rintro ⟨⟩
  exact Typestate.wp_perform (fun answer _ ↦ returned answer)
    (fun _ _ ↦ ⟨_, .fail uncommitted statement, hbroken⟩)
    (fun _ _ ↦ ⟨_, .fail uncommitted statement, hbroken⟩)

/-- A transaction commits what its work has written, and rolls back otherwise. -/
theorem transaction_follows {α : Type} {run : Async α}
    (h : run.wp ((moves role).spec (Answered i)) (fun _ φ ↦ ∃ id, φ = .holding id)
      (fun _ φ ↦ φ ≠ .committed) .clean) :
    (boundary.transaction fun _ ↦ run).wp ((moves role).spec (Answered i))
      (fun _ φ ↦ φ = .committed) (fun _ φ ↦ φ = .clean) .clean := by
  refine Boundary.wp_transaction (F := fun _ φ ↦ φ ≠ .committed) ?_ fun error φ hφ ↦ ?_
  · refine wp_statement (by rintro ⟨⟩) (by rintro ⟨⟩) fun _ ↦ ⟨_, .start, ?_⟩
    refine Program.wp_mono (fun value φ hφ ↦ ?_) (fun _ _ hφ ↦ hφ) h
    obtain ⟨id, rfl⟩ := hφ
    exact World.wp_answered Bool.false_ne_true fun _ ↦ ⟨_, .commit, rfl⟩
  · exact World.wp_answered Bool.false_ne_true fun _ ↦ ⟨_, .rollback hφ, rfl⟩

theorem saveSections_follows {id : TemplateId} (sections : List TemplateSectionData) :
    (saveSections id sections).wp ((moves role).spec (Answered i))
      (fun _ φ ↦ φ = .holding id) (fun _ φ ↦ φ ≠ .committed) (.holding id) := by
  unfold saveSections
  split
  · rfl
  · exact wp_statement (by rintro ⟨⟩) (by rintro ⟨⟩) fun _ ↦ ⟨_, .insertSections, rfl⟩

theorem createInTransaction_follows {data : CreateTemplateData}
    (unpublished : role ≠ .admin → data.isPublished = false) :
    (createInTransaction data).wp ((moves role).spec (Answered i))
      (fun _ φ ↦ ∃ id, φ = .holding id) (fun _ φ ↦ φ ≠ .committed) .clean := by
  unfold createInTransaction
  rw [Program.wp_bind]
  refine wp_statement (by rintro ⟨⟩) (by rintro ⟨⟩) fun id ↦ ⟨_, .insert unpublished, ?_⟩
  rw [Program.wp_bind]
  exact Program.wp_mono (fun _ _ hφ ↦ ⟨id, hφ⟩) (fun _ _ hφ ↦ hφ) (saveSections_follows data.sections)

theorem replaceSections_follows {id : TemplateId} (sections : Option (List TemplateSectionData)) :
    (replaceSections id sections).wp ((moves role).spec (Answered i))
      (fun _ φ ↦ φ = .holding id) (fun _ φ ↦ φ ≠ .committed) (.holding id) := by
  cases sections with
  | none =>
    exact wp_statement (by rintro ⟨⟩) (by rintro ⟨⟩) fun _ ↦ ⟨_, .findSections, rfl⟩
  | some sections =>
    unfold replaceSections
    rw [Program.wp_bind]
    exact wp_statement (by rintro ⟨⟩) (by rintro ⟨⟩) fun _ ↦
      ⟨_, .deleteSections, saveSections_follows sections⟩

/-- Where only unpublished templates may be updated, and not be published, the row that is written
is not published. -/
theorem updateInTransaction_follows {id : TemplateId} {patch : UpdateTemplateData}
    {onlyIfUnpublished : Bool} (restricted : role ≠ .admin → onlyIfUnpublished = true)
    (unpublished : role ≠ .admin → patch.isPublished ≠ some true) :
    (updateInTransaction id patch onlyIfUnpublished).wp ((moves role).spec (Answered i))
      (fun _ φ ↦ ∃ id, φ = .holding id) (fun _ φ ↦ φ ≠ .committed) .clean := by
  unfold updateInTransaction
  rw [Program.wp_bind]
  refine wp_statement (by rintro ⟨⟩) (by rintro ⟨⟩) fun locked ↦ ?_
  cases locked with
  | none => exact ⟨_, .missing, by rintro ⟨⟩⟩
  | some locked =>
    dsimp only
    by_cases hpublished : onlyIfUnpublished && locked.isPublished
    · rw [if_pos hpublished]
      exact ⟨_, .fail (by rintro ⟨⟩) (by rintro ⟨⟩), by rintro ⟨⟩⟩
    · rw [if_neg hpublished]
      have hlocked : role ≠ .admin → locked.isPublished = false := by
        intro hrole
        rw [restricted hrole, Bool.true_and] at hpublished
        exact Bool.eq_false_iff.mpr hpublished
      refine ⟨_, .lock hlocked, ?_⟩
      rw [Program.wp_bind]
      refine wp_statement (by rintro ⟨⟩) (by rintro ⟨⟩) fun entity ↦ ?_
      cases entity with
      | none => exact ⟨_, .findTemplate, by rintro ⟨⟩⟩
      | some entity =>
        refine ⟨_, .reread, ?_⟩
        rw [Program.wp_bind]
        refine wp_statement (by rintro ⟨⟩) (by rintro ⟨⟩) fun _ ↦ ⟨_, .update ?_, ?_⟩
        · intro hrole hentity
          have hpatch := unpublished hrole
          unfold TemplateRow.merge
          cases h : patch.isPublished with
          | none => exact hentity
          | some value =>
            rw [h] at hpatch
            cases value with
            | false => rfl
            | true => exact (hpatch rfl).elim
        · rw [Program.wp_bind]
          exact Program.wp_mono (fun _ _ hφ ↦ ⟨id, hφ⟩) (fun _ _ hφ ↦ hφ)
            (replaceSections_follows patch.sections)

theorem createTemplate_follows (input : CreateTemplateInput) :
    (createTemplate input).wp ((moves input.role).spec (Answered i)) (fun _ φ ↦ φ = .committed)
      (fun _ φ ↦ φ = .clean) .clean := by
  unfold createTemplate
  split
  · rfl
  · next hallowed =>
    have hunpublished : input.role ≠ .admin → input.data.isPublished = false := by
      intro hrole
      unfold CreateTemplateInput.data
      cases h : input.isPublished with
      | none => rfl
      | some value =>
        cases value with
        | false => rfl
        | true => exact (hallowed ⟨h, hrole⟩).elim
    rw [Program.wp_bind]
    refine Program.wp_mono (fun template φ hφ ↦ ?_) (fun _ _ hφ ↦ hφ)
      (transaction_follows (createInTransaction_follows hunpublished))
    subst hφ
    rw [Program.wp_bind]
    refine World.wp_answered Bool.false_ne_true fun _ ↦ ⟨_, .emit, ?_⟩
    split
    · rw [Program.wp_bind]
      exact World.wp_answered Bool.false_ne_true fun _ ↦ ⟨_, .emit, rfl⟩
    · rfl

theorem findById_follows {id : TemplateId} :
    (findById id).wp ((moves role).spec (Answered i)) (fun _ φ ↦ φ = .clean)
      (fun _ φ ↦ φ = .clean) .clean := by
  unfold findById
  rw [Program.wp_bind]
  refine Typestate.wp_perform (fun row _ ↦ ⟨_, .findTemplate, ?_⟩)
    (fun _ _ ↦ ⟨_, .findTemplate, rfl⟩) (fun _ _ ↦ ⟨_, .findTemplate, rfl⟩)
  cases row with
  | none => rfl
  | some row =>
    rw [Program.wp_bind]
    exact Typestate.wp_perform (fun _ _ ↦ ⟨_, .findSections, rfl⟩)
      (fun _ _ ↦ ⟨_, .findSections, rfl⟩) (fun _ _ ↦ ⟨_, .findSections, rfl⟩)

theorem updateTemplate_follows (input : UpdateTemplateInput) :
    (updateTemplate input).wp ((moves input.role).spec (Answered i)) (fun _ φ ↦ φ = .committed)
      (fun _ φ ↦ φ = .clean) .clean := by
  unfold updateTemplate
  rw [Program.wp_bind]
  refine Program.wp_mono (fun template φ hφ ↦ ?_) (fun _ _ hφ ↦ hφ) findById_follows
  subst hφ
  rw [Program.wp_bind]
  cases assertTemplateEditable template input.userId input.templateId input.role with
  | error error => rfl
  | ok editable =>
    dsimp only [liftExcept]
    rw [Program.wp_pure']
    split
    · rfl
    · split
      · rfl
      · next hallowed =>
        rw [Program.wp_bind, Program.wp_attempt]
        have hrestricted : input.role ≠ .admin → decide (input.role ≠ .admin) = true :=
          decide_eq_true
        have hunpublished : input.role ≠ .admin → input.patch.data.isPublished ≠ some true :=
          fun hrole hpatch ↦ hallowed ⟨hrole, hpatch⟩
        refine Program.wp_mono (fun updated φ hφ ↦ ?_) (fun error φ hφ ↦ ?_)
          (transaction_follows (updateInTransaction_follows hrestricted hunpublished))
        · subst hφ
          dsimp only
          rw [Program.wp_bind]
          refine World.wp_answered Bool.false_ne_true fun _ ↦ ⟨_, .emit, ?_⟩
          split
          · rw [Program.wp_bind]
            exact World.wp_answered Bool.false_ne_true fun _ ↦ ⟨_, .emit, rfl⟩
          · rfl
        · cases error <;> exact hφ

/-- A request that returns has committed, a request that throws has not. -/
theorem Request.program_follows (request : Request) :
    request.program.wp ((moves request.role).spec (Answered i)) (fun _ φ ↦ φ = .committed)
      (fun _ φ ↦ φ = .clean) .clean := by
  cases request with
  | create input => exact createTemplate_follows input
  | update input => exact updateTemplate_follows input

end Conformance

/-! ## Transactions on a template -/

section Effects

variable {ι : Type} [DecidableEq ι] {i j : ι} {s s' : Store ι} {id : TemplateId} {n : ℕ}

/-- The two ways of inserting a list of sections. -/
theorem insertSections_cons {ids : List ℕ} {data : TemplateSectionData}
    {sections : List TemplateSectionData} (h : insertSections i id ids (data :: sections) s = some s') :
    ∃ n rest middle, ids = n :: rest ∧ .templateSection n ∉ s.keys ∧
      s.put i (.templateSection n) .update LockMode.writes_update (some ⟨id, data⟩) = some middle ∧
      insertSections i id rest sections middle = some s' := by
  cases ids with
  | nil => cases h
  | cons n rest =>
    unfold insertSections at h
    split at h
    · cases h
    · next hfresh =>
      obtain ⟨middle, hput, hrest⟩ := Option.bind_eq_some_iff.mp h
      exact ⟨n, rest, middle, rfl, hfresh, hput, hrest⟩

/-- Inserting sections writes no other table. -/
theorem touched_insertSections {ids : List ℕ} {sections : List TemplateSectionData}
    (h : insertSections i id ids sections s = some s') :
    Tables.Touched i (fun key ↦ ∃ n, key = .templateSection n) s s' := by
  induction sections generalizing ids s with
  | nil =>
    unfold insertSections at h
    cases h
    exact .refl i _ s'
  | cons data sections ih =>
    obtain ⟨n, rest, middle, -, -, hput, hrest⟩ := insertSections_cons h
    exact ((Tables.Touched.put hput).1.mono fun _ hkey ↦ ⟨n, hkey⟩).trans (ih hrest)

/-- The two ways of locking a template. -/
theorem lockTemplate_eq {row : Option TemplateRow} (h : lockTemplate i id s = some (row, s')) :
    row = none ∧ s' = s ∨ row ≠ none ∧ row = s.view i (.template id) ∧
      ∃ grants, s' = s.lock i (.template id) .update grants := by
  unfold lockTemplate at h
  split at h
  · cases h
    exact .inl ⟨rfl, rfl⟩
  · next hrow =>
    split at h
    · next grants =>
      cases h
      exact .inr ⟨hrow, rfl, grants, rfl⟩
    · cases h

theorem insertTemplate_eq {row : TemplateRow} (h : insertTemplate i id row s = some s') :
    .template id ∉ s.keys ∧
      s.put i (.template id) .update LockMode.writes_update (some row) = some s' := by
  unfold insertTemplate at h
  split at h
  · cases h
  · next hfresh => exact ⟨hfresh, h⟩

/-- A call is a statement or the end of its caller's transaction. -/
theorem answer_eq {reply : Reply} {op : Op} {result : Ans op}
    (h : answer i reply op s = some (result, s')) :
    Tables.Touched i (fun _ ↦ True) s s' ∨ op = .commitTransaction ∧ s' = s.commit i ∨
      op = .rollbackTransaction ∧ s' = s.rollback i := by
  have hput : ∀ {key mode hmode} {row : Option (Row key)},
      s.put i key mode hmode row = some s' → Tables.Touched i (fun _ ↦ True) s s' :=
    fun hput ↦ (Tables.Touched.put hput).1.mono fun _ _ ↦ trivial
  cases op with
  | startTransaction => cases h; exact .inl (.refl i _ s)
  | commitTransaction => cases h; exact .inr (.inl ⟨rfl, rfl⟩)
  | rollbackTransaction => cases h; exact .inr (.inr ⟨rfl, rfl⟩)
  | findTemplate id => cases h; exact .inl (.refl i _ s)
  | findSections id => cases h; exact .inl (.refl i _ s)
  | emit event => cases h; exact .inl (.refl i _ s)
  | lockTemplate id =>
    rcases lockTemplate_eq h with ⟨-, rfl⟩ | ⟨-, -, grants, rfl⟩
    · exact .inl (.refl i _ s')
    · exact .inl .lock
  | insertTemplate row =>
    obtain ⟨after, hinsert, heq⟩ := Option.map_eq_some_iff.mp h
    cases heq
    exact .inl (hput (insertTemplate_eq hinsert).2)
  | updateTemplate id row =>
    obtain ⟨after, hupdate, heq⟩ := Option.map_eq_some_iff.mp h
    cases heq
    exact .inl (hput hupdate)
  | deleteSections id =>
    obtain ⟨after, hdelete, heq⟩ := Option.map_eq_some_iff.mp h
    cases heq
    exact .inl ((Tables.Touched.deleteAll hdelete).mono fun _ _ ↦ trivial)
  | insertSections id sections =>
    obtain ⟨after, hinsert, heq⟩ := Option.map_eq_some_iff.mp h
    cases heq
    exact .inl ((touched_insertSections hinsert).mono fun _ _ ↦ trivial)

theorem step_of_answers {op : Op} {o : Outcome TemplateError (Ans op)}
    (h : (world ι).Answers TemplateError i op s o s') : Tables.Step i s s' := by
  rcases h.unchanged_or_effect with rfl | ⟨result, reply, heffect⟩
  · exact .statements (.refl i _ s')
  · rcases answer_eq heffect with htouched | ⟨-, rfl⟩ | ⟨-, rfl⟩
    · exact .statements htouched
    · exact .commit
    · exact .rollback

/-- Only a commit changes committed rows. -/
theorem committed_of_answers {op : Op} {o : Outcome TemplateError (Ans op)}
    (h : (world ι).Answers TemplateError i op s o s') (hop : op ≠ .commitTransaction) :
    s'.committed = s.committed := by
  rcases h.unchanged_or_effect with rfl | ⟨result, reply, heffect⟩
  · rfl
  · rcases answer_eq heffect with htouched | ⟨hcommit, -⟩ | ⟨-, rfl⟩
    · exact htouched.committed
    · exact (hop hcommit).elim
    · exact Tables.rollback_committed

/-- A row of `templates` that is not published, or none. -/
def Unpublished (row : Option TemplateRow) : Prop :=
  ∀ template, row = some template → template.isPublished = false

/-- A section of a template, or none. -/
def Within (id : TemplateId) (row : Option TemplateSectionRow) : Prop :=
  ∀ templateSection, row = some templateSection → templateSection.templateId = id

/-- A transaction on a template writes nothing else.  Unless an admin makes it, the template is not
published, neither as it was nor as the transaction leaves it. -/
structure Holding (role : UserRole) (i : ι) (id : TemplateId) (s : Store ι) : Prop where
  writes : s.Writes i (.template id)
  committed : role ≠ .admin → Unpublished (s.committed (.template id))
  view : role ≠ .admin → Unpublished (s.view i (.template id))
  templates : ∀ other, other ≠ id → s.pending i (.template other) = none
  sections : ∀ n, s.pending i (.templateSection n) ≠ none →
    Within id (s.committed (.templateSection n)) ∧ Within id (s.view i (.templateSection n))

namespace Holding

variable {role : UserRole}

omit [DecidableEq ι] in
/-- Other transactions do not interfere. -/
theorem apart (h : Holding role i id s) (apart : Tables.Apart i s s') : Holding role i id s' where
  writes := apart.writes h.writes
  committed hrole := by
    rw [apart.committed _ h.writes]
    exact h.committed hrole
  view hrole := by
    rw [apart.view h.writes]
    exact h.view hrole
  templates other hother := by
    rw [apart.pending]
    exact h.templates other hother
  sections n hpending := by
    rw [apart.pending] at hpending
    have hwrites := s.written i _ hpending
    rw [apart.committed _ hwrites, apart.view hwrites]
    exact h.sections n hpending

omit [DecidableEq ι] in
/-- A transaction begins with the row lock of its template. -/
theorem of_idle (idle : s.Idle i) (touched : Tables.Touched i (· = .template id) s s')
    (writes : s'.Writes i (.template id))
    (committed : role ≠ .admin → Unpublished (s.committed (.template id)))
    (view : role ≠ .admin → Unpublished (s'.view i (.template id))) : Holding role i id s' where
  writes := writes
  committed hrole := by
    rw [touched.committed]
    exact committed hrole
  view := view
  templates other hother := by
    rw [touched.untouched _ fun h ↦ hother (Key.template.inj h)]
    exact idle.pending
  sections n hpending := by
    rw [touched.untouched _ (by rintro ⟨⟩)] at hpending
    exact (hpending idle.pending).elim

/-- A transaction writes the row of its template. -/
theorem update (h : Holding role i id s) {row : TemplateRow} {hmode}
    (unpublished : role ≠ .admin → row.isPublished = false)
    (put : s.put i (.template id) .noKeyUpdate hmode (some row) = some s') :
    Holding role i id s' := by
  obtain ⟨htouched, hview, hwrites⟩ := Tables.Touched.put put
  refine ⟨hwrites, fun hrole ↦ ?_, fun hrole ↦ ?_, fun other hother ↦ ?_, fun n hpending ↦ ?_⟩
  · rw [htouched.committed]
    exact h.committed hrole
  · rw [hview]
    intro template htemplate
    cases htemplate
    exact unpublished hrole
  · rw [htouched.untouched _ fun h ↦ hother (Key.template.inj h)]
    exact h.templates other hother
  · have hkey : (.templateSection n : Key) ≠ .template id := by rintro ⟨⟩
    rw [htouched.untouched _ hkey] at hpending
    rw [htouched.committed, htouched.view_of_not hkey]
    exact h.sections n hpending

/-- A transaction writes a section of its template. -/
theorem put_section (h : Holding role i id s) {row : Option TemplateSectionRow} {mode hmode}
    (old : Within id (s.committed (.templateSection n))) (new : Within id row)
    (put : s.put i (.templateSection n) mode hmode row = some s') : Holding role i id s' := by
  obtain ⟨htouched, hview, -⟩ := Tables.Touched.put put
  have hkey : ∀ other, (.template other : Key) ≠ .templateSection n := by rintro _ ⟨⟩
  refine ⟨htouched.writes h.writes, fun hrole ↦ ?_, fun hrole ↦ ?_, fun other hother ↦ ?_,
    fun m hpending ↦ ?_⟩
  · rw [htouched.committed]
    exact h.committed hrole
  · rw [htouched.view_of_not (hkey id)]
    exact h.view hrole
  · rw [htouched.untouched _ (hkey other)]
    exact h.templates other hother
  · rw [htouched.committed]
    by_cases hm : m = n
    · subst hm
      rw [hview]
      exact ⟨old, new⟩
    · have hne : (.templateSection m : Key) ≠ .templateSection n := fun h ↦ hm (Key.templateSection.inj h)
      rw [htouched.untouched _ hne] at hpending
      rw [htouched.view_of_not hne]
      exact h.sections m hpending

omit [DecidableEq ι] in
/-- A section that the transaction sees at its template was one before. -/
theorem within_committed (h : Holding role i id s) {row : TemplateSectionRow}
    (seen : s.view i (.templateSection n) = some row) (own : row.templateId = id) :
    Within id (s.committed (.templateSection n)) := by
  by_cases hpending : s.pending i (.templateSection n) = none
  · rw [← Tables.view_of_pending_none hpending, seen]
    intro templateSection heq
    cases heq
    exact own
  · exact (h.sections n hpending).1

theorem deleteAll {keys : List Key} (h : Holding role i id s)
    (own : ∀ key ∈ keys, ∃ n, key = .templateSection n ∧ Within id (s.committed (.templateSection n)))
    (delete : s.deleteAll i keys = some s') : Holding role i id s' := by
  induction keys generalizing s with
  | nil =>
    cases delete
    exact h
  | cons key keys ih =>
    obtain ⟨middle, hput, hrest⟩ := Option.bind_eq_some_iff.mp delete
    obtain ⟨n, rfl, hold⟩ := own key List.mem_cons_self
    have hnone : Within id none := by rintro _ ⟨⟩
    refine ih (h.put_section hold hnone hput) (fun other hother ↦ ?_) hrest
    rw [(Tables.Touched.put hput).1.committed]
    exact own other (List.mem_cons_of_mem _ hother)

/-- A transaction deletes the sections of its template. -/
theorem deleteSections (h : Holding role i id s)
    (delete : s.deleteAll i (s.scan i (ofTemplate id)) = some s') : Holding role i id s' := by
  refine h.deleteAll (fun key hkey ↦ ?_) delete
  obtain ⟨row, hrow, hof⟩ := Tables.mem_scan.mp hkey
  cases key with
  | template other => cases hof
  | templateSection n => exact ⟨n, rfl, h.within_committed hrow (of_decide_eq_true hof)⟩

/-- A transaction inserts sections of its template. -/
theorem insertSections {ids : List ℕ} {sections : List TemplateSectionData}
    (h : Holding role i id s) (insert : insertSections i id ids sections s = some s') :
    Holding role i id s' := by
  induction sections generalizing ids s with
  | nil =>
    unfold Templates.insertSections at insert
    cases insert
    exact h
  | cons data sections ih =>
    obtain ⟨n, rest, middle, -, hfresh, hput, hrest⟩ := insertSections_cons insert
    have hold : Within id (s.committed (.templateSection n)) := by
      rw [(s.known _ hfresh).1]
      rintro _ ⟨⟩
    have hnew : Within id (some ⟨id, data⟩) := by
      intro templateSection heq
      cases heq
      rfl
    exact ih (h.put_section hold hnew hput) hrest

end Holding

end Effects

/-! ## Runs of requests -/

/-- What a request that has come so far knows. -/
def Phase.Holds {ι : Type} (role : UserRole) (i : ι) (s : Store ι) : Phase → Prop
  | .clean => s.Idle i
  | .holding id => Holding role i id s
  | .reread id entity => Holding role i id s ∧ s.view i (.template id) = some entity
  | .broken => True
  | .committed => True

/-- The committed sections of a template by their ids. -/
def sectionsOf {ι : Type} (s : Store ι) (id : TemplateId) (n : ℕ) : Option TemplateSectionRow :=
  (s.committed (.templateSection n)).filter (·.templateId = id)

/-- A step by a user who is no admin leaves published templates and their sections as they are, and
publishes none. -/
structure Respects {ι : Type} (before after : Store ι) : Prop where
  kept : ∀ id row, before.committed (.template id) = some row → row.isPublished = true →
    after.committed (.template id) = some row ∧ sectionsOf after id = sectionsOf before id
  published : ∀ id row, after.committed (.template id) = some row → row.isPublished = true →
    before.committed (.template id) = some row

section Runs

variable {ι : Type} [DecidableEq ι] {i j : ι} {s s' : Store ι} {role : UserRole} {φ φ' : Phase}
  {op : Op} {o : Outcome TemplateError (Ans op)}

omit [DecidableEq ι] in
theorem Respects.of_committed (h : s'.committed = s.committed) : Respects s s' := by
  constructor
  · intro id row hrow _
    unfold sectionsOf
    rw [h]
    exact ⟨hrow, rfl⟩
  · intro id row hrow _
    rwa [h] at hrow

/-- The commit of a transaction on a template that is not published. -/
theorem Holding.respects {id : TemplateId} (h : Holding role i id s) (hrole : role ≠ .admin) :
    Respects s (s.commit i) := by
  have hother : ∀ other, other ≠ id →
      (s.commit i).committed (.template other) = s.committed (.template other) :=
    fun other hother ↦ Tables.view_of_pending_none (h.templates other hother)
  constructor
  · intro other row hrow hpublished
    have hne : other ≠ id := by
      rintro rfl
      rw [h.committed hrole row hrow] at hpublished
      cases hpublished
    refine ⟨(hother other hne).trans hrow, funext fun n ↦ ?_⟩
    have hfilter : ∀ section', Within id section' → section'.filter (·.templateId = other) = none := by
      intro section' hwithin
      refine Option.filter_eq_none_iff.mpr fun row hrow hown ↦ hne ?_
      exact (of_decide_eq_true hown).symm.trans (hwithin row hrow)
    unfold sectionsOf
    rw [Tables.commit_committed]
    by_cases hpending : s.pending i (.templateSection n) = none
    · rw [Tables.view_of_pending_none hpending]
    · obtain ⟨hold, hnew⟩ := h.sections n hpending
      rw [hfilter _ hold, hfilter _ hnew]
  · intro other row hrow hpublished
    have hne : other ≠ id := by
      rintro rfl
      rw [h.view hrole row hrow] at hpublished
      cases hpublished
    exact (hother other hne).symm.trans hrow

omit [DecidableEq ι] in
theorem Phase.Holds.apart (h : φ.Holds role i s) (apart : Tables.Apart i s s') :
    φ.Holds role i s' := by
  cases φ with
  | clean => exact apart.idle h
  | holding id => exact Holding.apart h apart
  | reread id entity =>
    refine ⟨h.1.apart apart, ?_⟩
    rw [apart.view h.1.writes]
    exact h.2
  | broken => trivial
  | committed => trivial

/-- Reads leave the tables alone. -/
theorem same_of_read (answers : (world ι).Answers TemplateError i op s o s')
    (read : ∀ reply, (answer i reply op s).map (·.2) = some s) : s' = s := by
  rcases answers.unchanged_or_effect with rfl | ⟨result, reply, heffect⟩
  · rfl
  · have hread := read reply
    rw [show answer i reply op s = some (result, s') from heffect] at hread
    exact Option.some.inj hread

/-- Every call of a request keeps what it knows. -/
theorem Phase.Holds.step (h : φ.Holds role i s)
    (answers : (world ι).Answers TemplateError i op s o s') (next : Moves role φ op o φ') :
    φ'.Holds role i s' := by
  cases next with
  | start =>
    rw [same_of_read answers fun _ ↦ rfl]
    exact h
  | findTemplate =>
    rw [same_of_read answers fun _ ↦ rfl]
    exact h
  | findSections =>
    rw [same_of_read answers fun _ ↦ rfl]
    exact h
  | fail => trivial
  | commit => trivial
  | emit => trivial
  | rollback =>
    obtain ⟨result, reply, heffect⟩ := answers.effect_of_sure Bool.false_ne_true
    cases heffect
    exact Tables.idle_finish
  | missing =>
    cases answers with
    | returned effect =>
      obtain ⟨reply, heffect⟩ := effect
      rcases lockTemplate_eq heffect with ⟨-, rfl⟩ | ⟨hsome, -⟩
      · exact h
      · exact (hsome rfl).elim
  | @lock id row unpublished =>
    cases answers with
    | returned effect =>
      obtain ⟨reply, heffect⟩ := effect
      rcases lockTemplate_eq heffect with ⟨hnone, -⟩ | ⟨-, hrow, grants, rfl⟩
      · cases hnone
      · have hview : role ≠ .admin → Unpublished (s.view i (.template id)) := by
          intro hrole template htemplate
          cases hrow.trans htemplate
          exact unpublished hrole
        have hcommitted : role ≠ .admin → Unpublished (s.committed (.template id)) := by
          rw [← Tables.Idle.view h]
          exact hview
        exact .of_idle h .lock (Tables.writes_lock grants rfl) hcommitted hview
  | @insert id row unpublished =>
    cases answers with
    | returned effect =>
      obtain ⟨reply, heffect⟩ := effect
      obtain ⟨after, hinsert, heq⟩ := Option.map_eq_some_iff.mp heffect
      cases heq
      obtain ⟨hfresh, hput⟩ := insertTemplate_eq hinsert
      obtain ⟨htouched, hview, hwrites⟩ := Tables.Touched.put hput
      refine .of_idle h htouched hwrites (fun _ ↦ ?_) fun hrole ↦ ?_
      · rw [(s.known _ hfresh).1]
        rintro _ ⟨⟩
      · rw [hview]
        intro template htemplate
        cases htemplate
        exact unpublished hrole
  | reread =>
    cases answers with
    | returned effect =>
      obtain ⟨reply, heffect⟩ := effect
      obtain ⟨hrow, rfl⟩ := Prod.mk.inj (Option.some.inj heffect)
      exact ⟨h, hrow⟩
  | update unpublished =>
    cases answers with
    | returned effect =>
      obtain ⟨reply, heffect⟩ := effect
      obtain ⟨after, hupdate, heq⟩ := Option.map_eq_some_iff.mp heffect
      cases heq
      exact h.1.update (fun hrole ↦ unpublished hrole (h.1.view hrole _ h.2)) hupdate
  | deleteSections =>
    cases answers with
    | returned effect =>
      obtain ⟨reply, heffect⟩ := effect
      obtain ⟨after, hdelete, heq⟩ := Option.map_eq_some_iff.mp heffect
      cases heq
      exact Holding.deleteSections h hdelete
  | insertSections =>
    cases answers with
    | returned effect =>
      obtain ⟨reply, heffect⟩ := effect
      obtain ⟨after, hinsert, heq⟩ := Option.map_eq_some_iff.mp heffect
      cases heq
      exact Holding.insertSections h hinsert

/-- What a call of a request does to the committed templates. -/
theorem Phase.Holds.respects (h : φ.Holds role i s)
    (answers : (world ι).Answers TemplateError i op s o s') (next : Moves role φ op o φ') :
    (role ≠ .admin → Respects s s') ∧ (φ' ≠ .committed → s'.committed = s.committed) := by
  by_cases hop : op = .commitTransaction
  · subst hop
    cases next with
    | fail uncommitted failed => exact (failed rfl).elim
    | commit =>
      obtain ⟨result, reply, heffect⟩ := answers.effect_of_sure Bool.false_ne_true
      cases heffect
      exact ⟨fun hrole ↦ Holding.respects h hrole, fun hphase ↦ (hphase rfl).elim⟩
  · have hcommitted := committed_of_answers answers hop
    exact ⟨fun _ ↦ .of_committed hcommitted, fun _ ↦ hcommitted⟩

/-- A request that has committed makes no other transaction. -/
theorem Moves.committed (next : Moves role .committed op o φ') : φ' = .committed := by
  cases next with
  | findTemplate => rfl
  | findSections => rfl
  | emit => rfl
  | fail uncommitted => exact (uncommitted rfl).elim
  | rollback uncommitted => exact (uncommitted rfl).elim

abbrev Call (ι : Type) := Event ι (Store ι) Ans TemplateError

/-- The invariant of runs of requests. -/
structure Respecting (requests : ι → Request) (s : Store ι) (φ : ι → Phase) (trace : List (Call ι)) :
    Prop where
  holds : ∀ i, (φ i).Holds (requests i).role i s
  respects : ∀ entry ∈ stepsOf s trace, (requests entry.1.caller).role ≠ .admin →
    Respects entry.1.before entry.2
  uncommitted : ∀ i, φ i ≠ .committed → ∀ entry ∈ stepsOf s trace, entry.1.caller = i →
    entry.2.committed = entry.1.before.committed

theorem Respecting.step {requests : ι → Request} {φ : ι → Phase} {trace : List (Call ι)}
    (h : Respecting requests s φ trace) (answers : (world ι).Answers TemplateError i op s o s')
    (next : Moves (requests i).role (φ i) op o φ') :
    Respecting requests s' (Function.update φ i φ') (⟨s, i, op, o⟩ :: trace) := by
  obtain ⟨hrespects, hcommitted⟩ := (h.holds i).respects answers next
  constructor
  · intro j
    by_cases hj : j = i
    · subst hj
      rw [Function.update_self]
      exact (h.holds j).step answers next
    · rw [Function.update_of_ne hj]
      exact (h.holds j).apart ((step_of_answers answers).apart hj)
  · intro entry hentry
    rcases List.mem_cons.mp hentry with rfl | hearlier
    · exact hrespects
    · exact h.respects entry hearlier
  · intro j hphase entry hentry hcaller
    by_cases hj : j = i
    · subst hj
      rw [Function.update_self] at hphase
      have hbefore : φ j ≠ .committed := by
        intro heq
        rw [heq] at next
        exact hphase next.committed
      rcases List.mem_cons.mp hentry with rfl | hearlier
      · exact hcommitted hphase
      · exact h.uncommitted j hbefore entry hearlier hcaller
    · rw [Function.update_of_ne hj] at hphase
      rcases List.mem_cons.mp hentry with rfl | hearlier
      · exact (hj hcaller.symm).elim
      · exact h.uncommitted j hphase entry hearlier hcaller

end Runs

/-- However requests interleave, a step by a user who is no admin changes no published template and
none of its sections; a step that publishes a template is an admin's; and a request that throws has
changed nothing. -/
theorem published_templates_kept {ι : Type} [DecidableEq ι] {start : Store ι}
    (idle : ∀ i, start.Idle i) {requests : ι → Request}
    {config : Config ι (Store ι) Ans TemplateError Template}
    (reachable : (world ι).Reachable (Config.initial start fun i ↦ (requests i).program) config) :
    (∀ entry ∈ stepsOf config.shared config.trace, (requests entry.1.caller).role ≠ .admin →
      ∀ id row, entry.1.before.committed (.template id) = some row → row.isPublished = true →
        entry.2.committed (.template id) = some row ∧
          sectionsOf entry.2 id = sectionsOf entry.1.before id) ∧
    (∀ entry ∈ stepsOf config.shared config.trace,
      ∀ id row, entry.2.committed (.template id) = some row → row.isPublished = true →
        (∀ old, entry.1.before.committed (.template id) = some old → old.isPublished = false) →
          (requests entry.1.caller).role = .admin) ∧
    ∀ i error, config.threads i = .throw error →
      ∀ entry ∈ stepsOf config.shared config.trace, entry.1.caller = i →
        entry.2.committed = entry.1.before.committed := by
  have hfollows : ∀ i, (requests i).program.wp
      ((moves (requests i).role).spec (Answered i)) (fun _ φ ↦ φ = .committed)
      (fun _ φ ↦ φ = .clean) .clean := fun i ↦ (requests i).program_follows
  obtain ⟨φ, htracked, hconform⟩ := World.exists_tracked
    (T := fun i ↦ moves (requests i).role) rfl hfollows reachable
  have hstart : Respecting requests start (fun _ ↦ .clean) ([] : List (Call ι)) :=
    ⟨idle, fun _ h ↦ (List.not_mem_nil h).elim, fun _ _ _ h ↦ (List.not_mem_nil h).elim⟩
  have hrun := htracked.invariant (Respecting requests) (fun _ ↦ True) hstart
    (fun h _ answers next ↦ h.step answers next) fun _ _ ↦ trivial
  refine ⟨fun entry hentry hrole ↦ (hrun.respects entry hentry hrole).kept, ?_, ?_⟩
  · intro entry hentry id row hrow hpublished hunpublished
    by_contra hrole
    have hbefore := (hrun.respects entry hentry hrole).published id row hrow hpublished
    rw [hunpublished row hbefore] at hpublished
    cases hpublished
  · intro i error hthread
    have hphase := hconform i
    rw [hthread, Program.wp_throw] at hphase
    exact hrun.uncommitted i (by rw [hphase]; rintro ⟨⟩)

def briefing : TemplateId := ⟨"briefing", by decide⟩

def author : UserId := ⟨"author", by decide⟩

def root : UserId := ⟨"root", by decide⟩

/-- A template that its author has not published. -/
def draft : TemplateRow where
  title := "Briefing"
  docType := "report"
  scope := "user"
  createdBy := some author
  styleConfig := none
  isPublished := false

def draftRows : (key : Key) → Option (Row key)
  | .template id => if id = briefing then some draft else none
  | .templateSection _ => none

theorem draftRows_known : ∀ key, key ∉ [Key.template briefing] → draftRows key = none := by
  intro key hkey
  cases key with
  | template id =>
    have hne : id ≠ briefing := by
      rintro rfl
      exact hkey List.mem_cons_self
    exact if_neg hne
  | templateSection n => rfl

/-- An admin publishes the template while its author gives it a new title. -/
def publishAndRetitle : Bool → Request
  | false => .update ⟨root, .admin, briefing, { isPublished := some true }⟩
  | true => .update ⟨author, .user, briefing, { title := some "Plans" }⟩

/-- The author reads the template before the admin's transaction and locks it after. -/
def publishedMeanwhile : List (Move Bool Reply TemplateError) :=
  ([true, true] ++ List.replicate 8 false ++ [true, true, true]).map fun i ↦ ⟨i, {}, .returned ()⟩

theorem published_templates_kept_refused :
    ∃ config : Config Bool (Store Bool) Ans TemplateError Template,
      (config.shared.committed (.template briefing)).map (fun row ↦ (row.title, row.isPublished)) =
        some ("Briefing", true) ∧
      config.threads true = .throw (.http onlyAdminModifiesPublished) ∧
      ∀ entry ∈ stepsOf config.shared config.trace, entry.1.caller = true →
        entry.2.committed = entry.1.before.committed := by
  have hreplay : ((sessions Bool).replay (Config.initial (Tables.ofRows _ draftRows draftRows_known)
      fun i ↦ (publishAndRetitle i).program) publishedMeanwhile).map (fun config ↦
        ((config.shared.committed (.template briefing)).map (fun row ↦ (row.title, row.isPublished)),
          (config.threads true).thrown)) =
      some (some ("Briefing", true), some (.http onlyAdminModifiesPublished)) := by decide +kernel
  obtain ⟨config, hreachable, hview⟩ := (sessions Bool).exists_reachable hreplay
  obtain ⟨htemplate, hthrown⟩ := Prod.mk.inj hview
  have hthread := Program.thrown_eq_some.mp hthrown
  have hkept := published_templates_kept (fun _ ↦ Tables.idle_ofRows) hreachable
  exact ⟨config, htemplate, hthread, hkept.2.2 true _ hthread⟩

end MemoFlowApi.Templates
