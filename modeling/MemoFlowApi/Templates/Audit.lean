import Mathlib.Data.List.Perm.Basic
import MemoFlowApi.Templates.Publishing

/-!
# The Audit Trail of Publications

An update compares the template that it returns with the one that it read before its transaction,
and announces the difference.  The difference is its own doing where `is_published` is still as it
was read when the update commits; where another request has changed it in between, the update
announces a change that the other has made, or keeps silent about its own.
-/

namespace MemoFlowApi.Templates

open Concurrency Sql

/-! ## Announced and committed changes -/

/-- A change of `is_published`, with the request and the user who made it. -/
structure Flip (ι : Type) where
  caller : ι
  userId : UserId
  templateId : TemplateId
  deriving DecidableEq

section Trail

variable {ι : Type}

/-- The change that an event announces, if it is one to `published`. -/
def announcement (published : Bool) (event : Call ι) : Option (Flip ι) :=
  match event.op with
  | .emit (.published userId templateId) =>
      if published then some ⟨event.caller, userId, templateId⟩ else none
  | .emit (.unpublished userId templateId) =>
      if published then none else some ⟨event.caller, userId, templateId⟩
  | _ => none

def announcements (published : Bool) (trace : List (Call ι)) : List (Flip ι) :=
  trace.filterMap (announcement published)

/-- Whether a template is published, as far as that is committed. -/
def committedPublished (s : Store ι) (id : TemplateId) : Option Bool :=
  (s.committed (.template id)).map (·.isPublished)

/-- The change that a step makes, if it is one to `published`. -/
def flip (userOf : ι → UserId) (id : TemplateId) (published : Bool) (entry : Call ι × Store ι) :
    Option (Flip ι) :=
  if committedPublished entry.1.before id = some !published ∧
      committedPublished entry.2 id = some published then
    some ⟨entry.1.caller, userOf entry.1.caller, id⟩
  else none

def flips (userOf : ι → UserId) (id : TemplateId) (published : Bool) (s : Store ι)
    (trace : List (Call ι)) : List (Flip ι) :=
  (stepsOf s trace).filterMap (flip userOf id published)

/-- What a call tells its caller about `is_published`. -/
def readPublished : (op : Op) → Outcome TemplateError (Ans op) → Option Bool
  | .findTemplate _, .returned (some row) => some row.isPublished
  | _, _ => none

variable [DecidableEq ι] {i j : ι}

/-- `is_published` as a request first read it. -/
def firstRead (i : ι) : List (Call ι) → Option Bool
  | [] => none
  | event :: earlier =>
      firstRead i earlier <|>
        if event.caller = i then readPublished event.op event.outcome else none

/-- When a request commits, `is_published` is as the request first read it. -/
def CommitsAsRead (id : TemplateId) (i : ι) : List (Call ι) → Prop :=
  EachCall fun event earlier ↦ event.caller = i → event.op = .commitTransaction →
    firstRead i earlier = committedPublished event.before id

/-- The changes that are laid to a request. -/
def Flip.byCaller (i : ι) (changes : List (Flip ι)) : List (Flip ι) :=
  changes.filter (·.caller = i)

/-- Changes that agree request by request agree altogether. -/
theorem Flip.perm_of_byCaller {changes changes' : List (Flip ι)}
    (h : ∀ i, Flip.byCaller i changes = Flip.byCaller i changes') : changes.Perm changes' := by
  apply List.perm_iff_count.mpr
  intro change
  have hown : ∀ l : List (Flip ι), (byCaller change.caller l).count change = l.count change :=
    fun l ↦ List.count_filter (decide_eq_true rfl)
  rw [← hown changes, h, hown]

omit [DecidableEq ι] in
theorem caller_of_announcement {published : Bool} {event : Call ι} {change : Flip ι}
    (h : announcement published event = some change) : change.caller = event.caller := by
  unfold announcement at h
  split at h
  · split at h
    · cases h
      rfl
    · cases h
  · split at h
    · cases h
    · cases h
      rfl
  · cases h

omit [DecidableEq ι] in
theorem caller_of_flip {userOf : ι → UserId} {id : TemplateId} {published : Bool}
    {entry : Call ι × Store ι} {change : Flip ι} (h : flip userOf id published entry = some change) :
    change.caller = entry.1.caller := by
  unfold flip at h
  split at h
  · cases h
    rfl
  · cases h

/-- What others do is not laid to a request. -/
theorem byCaller_cons_of_ne {change : Option (Flip ι)} {changes : List (Flip ι)}
    (hcaller : ∀ c, change = some c → c.caller = j) (hne : j ≠ i) :
    Flip.byCaller i (change.toList ++ changes) = Flip.byCaller i changes := by
  cases change with
  | none => rfl
  | some c =>
    have hc : ¬decide (c.caller = i) = true := by
      rw [decide_eq_true_eq, hcaller c rfl]
      exact hne
    exact List.filter_cons_of_neg hc

/-- What a request does comes on top. -/
theorem byCaller_cons_of_eq {change : Option (Flip ι)} {changes : List (Flip ι)}
    (hcaller : ∀ c, change = some c → c.caller = i) :
    Flip.byCaller i (change.toList ++ changes) = change.toList ++ Flip.byCaller i changes := by
  cases change with
  | none => rfl
  | some c => exact List.filter_cons_of_pos (decide_eq_true (hcaller c rfl))

omit [DecidableEq ι] in
theorem filterMap_cons_toList {α β : Type} (f : α → Option β) (a : α) (l : List α) :
    (a :: l).filterMap f = (f a).toList ++ l.filterMap f := by
  rw [List.filterMap_cons]
  cases f a <;> rfl

end Trail

/-! ## Calls of an update -/

/-- How far an update has come. -/
inductive Stage where
  | reading
  /-- The template was read, with this `isPublished`. -/
  | read (seen : Bool)
  | locked (seen : Bool)
  /-- The row was written, with the second `isPublished`. -/
  | written (seen published : Bool)
  | broken
  | committed (seen published : Bool)
  | announced (seen published : Bool)

/-- Nothing is committed yet. -/
def Stage.Uncommitted : Stage → Prop
  | .committed _ _ => False
  | .announced _ _ => False
  | _ => True

/-- The event of a change of `is_published`. -/
def flipEvent (published : Bool) (userId : UserId) (templateId : TemplateId) : TemplateEvent :=
  if published then .published userId templateId else .unpublished userId templateId

/-- The calls of an update. -/
inductive Updates (input : UpdateTemplateInput) :
    Stage → (op : Op) → Outcome TemplateError (Ans op) → Stage → Prop
  | read {row : TemplateRow} :
      Updates input .reading (.findTemplate input.templateId) (.returned (some row))
        (.read row.isPublished)
  | findSections {stage id stored} (uncommitted : stage.Uncommitted) :
      Updates input stage (.findSections id) (.returned stored) stage
  | start {seen} : Updates input (.read seen) .startTransaction (.returned ()) (.read seen)
  | lock {seen} {row : TemplateRow} :
      Updates input (.read seen) (.lockTemplate input.templateId) (.returned (some row))
        (.locked seen)
  | reread {seen id} {row : TemplateRow} :
      Updates input (.locked seen) (.findTemplate id) (.returned (some row)) (.locked seen)
  | update {seen row} :
      Updates input (.locked seen) (.updateTemplate input.templateId row) (.returned ())
        (.written seen row.isPublished)
  | deleteSections {seen published id} :
      Updates input (.written seen published) (.deleteSections id) (.returned ())
        (.written seen published)
  | insertSections {seen published id sections stored} :
      Updates input (.written seen published) (.insertSections id sections) (.returned stored)
        (.written seen published)
  | fail {stage op o} (uncommitted : stage.Uncommitted) (statement : op ≠ .commitTransaction)
      (silent : ∀ event, op ≠ .emit event) : Updates input stage op o .broken
  | commit {seen published} :
      Updates input (.written seen published) .commitTransaction (.returned ())
        (.committed seen published)
  | updated {seen published userId id fields o} :
      Updates input (.committed seen published) (.emit (.updated userId id fields)) o
        (.committed seen published)
  | announce {seen published o} :
      Updates input (.committed seen published)
        (.emit (flipEvent published input.userId input.templateId)) o (.announced seen published)

/-- An update has announced that `isPublished` differs from what it read, and nothing else. -/
def Stage.Settled (stage : Stage) : Prop :=
  (∃ seen, stage = .committed seen seen) ∨
    ∃ seen published, published ≠ seen ∧ stage = .announced seen published

section Conformance

variable {ι : Type} [DecidableEq ι] {i : ι} {input : UpdateTemplateInput}

def updates (input : UpdateTemplateInput) : Typestate Ans TemplateError Stage := ⟨Updates input⟩

/-- A statement that fails ends the update. -/
theorem wp_query {op : Op} {Q : Ans op → Stage → Prop} {stage : Stage}
    (uncommitted : stage.Uncommitted) (statement : op ≠ .commitTransaction)
    (silent : ∀ event, op ≠ .emit event)
    (returned : ∀ answer, ∃ stage', Updates input stage op (.returned answer) stage' ∧
      Q answer stage') :
    (await op).wp ((updates input).spec (Answered i)) Q (fun _ stage ↦ stage.Uncommitted) stage :=
  Typestate.wp_perform (fun answer _ ↦ returned answer)
    (fun _ _ ↦ ⟨_, .fail uncommitted statement silent, trivial⟩)
    (fun _ _ ↦ ⟨_, .fail uncommitted statement silent, trivial⟩)

/-- The transaction of an update. -/
theorem transaction_updates {α : Type} {run : Async α} {seen : Bool} {Q : α → Bool → Prop}
    (h : run.wp ((updates input).spec (Answered i))
      (fun value stage ↦ ∃ published, stage = .written seen published ∧ Q value published)
      (fun _ stage ↦ stage.Uncommitted) (.read seen)) :
    (boundary.transaction fun _ ↦ run).wp ((updates input).spec (Answered i))
      (fun value stage ↦ ∃ published, stage = .committed seen published ∧ Q value published)
      (fun _ stage ↦ stage.Uncommitted) (.read seen) := by
  refine Boundary.wp_transaction (F := fun _ stage ↦ stage.Uncommitted) ?_ fun error stage h ↦ ?_
  · refine wp_query trivial (by rintro ⟨⟩) (by rintro _ ⟨⟩) fun _ ↦ ⟨_, .start, ?_⟩
    refine Program.wp_mono (fun value stage hstage ↦ ?_) (fun _ _ hstage ↦ hstage) h
    obtain ⟨published, rfl, hQ⟩ := hstage
    exact World.wp_answered Bool.false_ne_true fun _ ↦ ⟨_, .commit, published, rfl, hQ⟩
  · refine World.wp_answered Bool.false_ne_true fun _ ↦ ?_
    exact ⟨_, .fail h (by rintro ⟨⟩) (by rintro _ ⟨⟩), trivial⟩

theorem saveSections_updates {id : TemplateId} {seen published : Bool}
    (sections : List TemplateSectionData) :
    (saveSections id sections).wp ((updates input).spec (Answered i))
      (fun _ stage ↦ stage = .written seen published) (fun _ stage ↦ stage.Uncommitted)
      (.written seen published) := by
  unfold saveSections
  split
  · rfl
  · exact wp_query trivial (by rintro ⟨⟩) (by rintro _ ⟨⟩) fun _ ↦ ⟨_, .insertSections, rfl⟩

theorem replaceSections_updates {id : TemplateId} {seen published : Bool}
    (sections : Option (List TemplateSectionData)) :
    (replaceSections id sections).wp ((updates input).spec (Answered i))
      (fun _ stage ↦ stage = .written seen published) (fun _ stage ↦ stage.Uncommitted)
      (.written seen published) := by
  cases sections with
  | none =>
    exact wp_query trivial (by rintro ⟨⟩) (by rintro _ ⟨⟩) fun _ ↦
      ⟨_, .findSections trivial, rfl⟩
  | some sections =>
    unfold replaceSections
    rw [Program.wp_bind]
    exact wp_query trivial (by rintro ⟨⟩) (by rintro _ ⟨⟩) fun _ ↦
      ⟨_, .deleteSections, saveSections_updates sections⟩

/-- The template that the transaction returns is as published as the row that it writes. -/
theorem updateInTransaction_updates {patch : UpdateTemplateData} {onlyIfUnpublished seen : Bool} :
    (updateInTransaction input.templateId patch onlyIfUnpublished).wp
      ((updates input).spec (Answered i))
      (fun template stage ↦ ∃ published, stage = .written seen published ∧
        template.isPublished = published ∧ template.id = input.templateId)
      (fun _ stage ↦ stage.Uncommitted) (.read seen) := by
  unfold updateInTransaction
  rw [Program.wp_bind]
  refine wp_query trivial (by rintro ⟨⟩) (by rintro _ ⟨⟩) fun locked ↦ ?_
  cases locked with
  | none => exact ⟨_, .fail trivial (by rintro ⟨⟩) (by rintro _ ⟨⟩), trivial⟩
  | some locked =>
    refine ⟨_, .lock, ?_⟩
    dsimp only
    split
    · trivial
    · rw [Program.wp_bind]
      refine wp_query trivial (by rintro ⟨⟩) (by rintro _ ⟨⟩) fun entity ↦ ?_
      cases entity with
      | none => exact ⟨_, .fail trivial (by rintro ⟨⟩) (by rintro _ ⟨⟩), trivial⟩
      | some entity =>
        refine ⟨_, .reread, ?_⟩
        rw [Program.wp_bind]
        refine wp_query trivial (by rintro ⟨⟩) (by rintro _ ⟨⟩) fun _ ↦ ⟨_, .update, ?_⟩
        rw [Program.wp_bind]
        exact Program.wp_mono (fun _ _ hstage ↦ ⟨_, hstage, rfl, rfl⟩) (fun _ _ hstage ↦ hstage)
          (replaceSections_updates patch.sections)

theorem findById_updates :
    (findById input.templateId).wp ((updates input).spec (Answered i))
      (fun template stage ↦ stage.Uncommitted ∧
        ∀ value, template = some value → stage = .read value.isPublished)
      (fun _ stage ↦ stage.Uncommitted) .reading := by
  unfold findById
  rw [Program.wp_bind]
  refine wp_query trivial (by rintro ⟨⟩) (by rintro _ ⟨⟩) fun row ↦ ?_
  cases row with
  | none =>
    refine ⟨_, .fail trivial (by rintro ⟨⟩) (by rintro _ ⟨⟩), trivial, ?_⟩
    rintro _ ⟨⟩
  | some row =>
    refine ⟨_, .read, ?_⟩
    rw [Program.wp_bind]
    refine wp_query trivial (by rintro ⟨⟩) (by rintro _ ⟨⟩) fun _ ↦
      ⟨_, .findSections trivial, trivial, ?_⟩
    rintro _ ⟨⟩
    rfl

/-- The template to edit is the one that was read. -/
theorem eq_of_editable {template : Option Template} {userId : UserId} {id : TemplateId}
    {role : UserRole} {editable : Template}
    (h : assertTemplateEditable template userId id role = .ok editable) :
    template = some editable := by
  unfold assertTemplateEditable at h
  split at h
  · cases h
  · split at h
    · cases h
      rfl
    · split at h
      · cases h
      · cases h
        rfl

/-- An update that returns has announced the difference between what it has read and what it has
committed; one that throws has committed nothing. -/
theorem updateTemplate_updates :
    (updateTemplate input).wp ((updates input).spec (Answered i)) (fun _ stage ↦ stage.Settled)
      (fun _ stage ↦ stage.Uncommitted) .reading := by
  unfold updateTemplate
  rw [Program.wp_bind]
  refine Program.wp_mono (fun template stage hread ↦ ?_) (fun _ _ hstage ↦ hstage) findById_updates
  obtain ⟨huncommitted, hread⟩ := hread
  rw [Program.wp_bind]
  cases heditable : assertTemplateEditable template input.userId input.templateId input.role with
  | error error => exact huncommitted
  | ok editable =>
    have hstage := hread editable (eq_of_editable heditable)
    subst hstage
    dsimp only [liftExcept]
    rw [Program.wp_pure']
    split
    · trivial
    · split
      · trivial
      · rw [Program.wp_bind, Program.wp_attempt]
        refine Program.wp_mono (fun updated stage hstage ↦ ?_) (fun error stage hstage ↦ ?_)
          (transaction_updates updateInTransaction_updates)
        · obtain ⟨published, rfl, hpublished, hid⟩ := hstage
          dsimp only
          rw [Program.wp_bind]
          refine World.wp_answered Bool.false_ne_true fun _ ↦ ⟨_, .updated, ?_⟩
          split
          · next hchanged =>
            rw [hpublished] at hchanged
            rw [Program.wp_bind, hpublished, hid]
            exact World.wp_answered Bool.false_ne_true fun _ ↦
              ⟨_, .announce, .inr ⟨_, _, hchanged, rfl⟩⟩
          · next hsame =>
            have hsame := not_not.mp hsame
            rw [hpublished] at hsame
            exact .inl ⟨_, by rw [hsame]⟩
        · cases error <;> exact hstage

end Conformance

/-! ## Runs of updates -/

/-- What an update that has come so far knows of the tables. -/
def Stage.Holds {ι : Type} (id : TemplateId) (i : ι) (s : Store ι) : Stage → Prop
  | .reading => s.Idle i
  | .read _ => s.Idle i
  | .locked _ => s.Writes i (.template id) ∧ s.committed (.template id) ≠ none
  | .written _ published => s.Writes i (.template id) ∧ s.committed (.template id) ≠ none ∧
      (s.view i (.template id)).map (·.isPublished) = some published
  | _ => True

/-- What an update has read before its transaction. -/
def Stage.seen? : Stage → Option Bool
  | .reading | .broken => none
  | .read seen | .locked seen | .written seen _ | .committed seen _ | .announced seen _ => some seen

/-- The change of `is_published` that a request may make. -/
def changeOf {ι : Type} (userOf : ι → UserId) (id : TemplateId) (i : ι) : Flip ι := ⟨i, userOf i, id⟩

/-- The changes that an update has announced. -/
def Stage.announcements {ι : Type} (change : Flip ι) (published : Bool) : Stage → List (Flip ι)
  | .announced _ value => if value = published then [change] else []
  | _ => []

/-- What the trace tells of an update that has come so far. -/
structure Recorded {ι : Type} [DecidableEq ι] (userOf : ι → UserId) (id : TemplateId) (i : ι)
    (s : Store ι) (trace : List (Call ι)) (stage : Stage) : Prop where
  announced : ∀ published, Flip.byCaller i (announcements published trace) =
    stage.announcements (changeOf userOf id i) published
  firstRead : stage = .broken ∨ firstRead i trace = stage.seen?
  uncommitted : stage.Uncommitted → CommitsAsRead id i trace ∧
    ∀ published, Flip.byCaller i (flips userOf id published s trace) = []
  /-- The commit found `old`, whatever was read first. -/
  committed : ∀ seen value, stage = .committed seen value ∨ stage = .announced seen value →
    ∃ old, (CommitsAsRead id i trace ↔ seen = old) ∧
      ∀ published, Flip.byCaller i (flips userOf id published s trace) =
        if value ≠ old ∧ value = published then [changeOf userOf id i] else []

section Runs

variable {ι : Type} [DecidableEq ι] {i j : ι} {s s' : Store ι} {trace : List (Call ι)}
  {userOf : ι → UserId} {id : TemplateId} {stage stage' : Stage} {op : Op}
  {o : Outcome TemplateError (Ans op)} {input : UpdateTemplateInput}

omit [DecidableEq ι] in
/-- A step that commits nothing changes nothing that is committed. -/
theorem flips_cons_of_same (h : s'.committed = s.committed) (published : Bool) :
    flips userOf id published s' (⟨s, i, op, o⟩ :: trace) = flips userOf id published s trace := by
  have hnone : flip userOf id published (⟨s, i, op, o⟩, s') = none := by
    refine if_neg ?_
    rintro ⟨hbefore, hafter⟩
    have hsame : committedPublished s' id = committedPublished s id := by
      unfold committedPublished
      rw [h]
    rw [hsame, hbefore] at hafter
    cases published <;> cases hafter
  unfold flips
  rw [stepsOf_cons, List.filterMap_cons_none hnone]

theorem byCaller_announcements_cons (published : Bool) :
    Flip.byCaller i (announcements published (⟨s, i, op, o⟩ :: trace)) =
      (announcement published (⟨s, i, op, o⟩ : Call ι)).toList ++
        Flip.byCaller i (announcements published trace) := by
  unfold announcements
  rw [filterMap_cons_toList]
  exact byCaller_cons_of_eq fun _ ↦ caller_of_announcement

theorem byCaller_announcements_cons_of_ne (hne : j ≠ i) (published : Bool) :
    Flip.byCaller i (announcements published (⟨s, j, op, o⟩ :: trace)) =
      Flip.byCaller i (announcements published trace) := by
  unfold announcements
  rw [filterMap_cons_toList]
  exact byCaller_cons_of_ne (fun _ ↦ caller_of_announcement) hne

theorem byCaller_flips_cons (published : Bool) :
    Flip.byCaller i (flips userOf id published s' (⟨s, i, op, o⟩ :: trace)) =
      (flip userOf id published (⟨s, i, op, o⟩, s')).toList ++
        Flip.byCaller i (flips userOf id published s trace) := by
  unfold flips
  rw [stepsOf_cons, filterMap_cons_toList]
  exact byCaller_cons_of_eq fun _ ↦ caller_of_flip

theorem byCaller_flips_cons_of_ne (hne : j ≠ i) (published : Bool) :
    Flip.byCaller i (flips userOf id published s' (⟨s, j, op, o⟩ :: trace)) =
      Flip.byCaller i (flips userOf id published s trace) := by
  unfold flips
  rw [stepsOf_cons, filterMap_cons_toList]
  exact byCaller_cons_of_ne (fun _ ↦ caller_of_flip) hne

theorem commitsAsRead_cons :
    CommitsAsRead id i (⟨s, j, op, o⟩ :: trace) ↔
      (j = i → op = .commitTransaction → firstRead i trace = committedPublished s id) ∧
        CommitsAsRead id i trace := Iff.rfl

theorem firstRead_cons :
    firstRead i (⟨s, j, op, o⟩ :: trace) =
      (firstRead i trace <|> if j = i then readPublished op o else none) := rfl

theorem firstRead_cons_of_ne (hne : j ≠ i) :
    firstRead i (⟨s, j, op, o⟩ :: trace) = firstRead i trace := by
  rw [firstRead_cons, if_neg hne]
  cases firstRead i trace <;> rfl

/-- The first read stays the first. -/
theorem firstRead_cons_of_some {seen : Bool} (h : firstRead i trace = some seen) :
    firstRead i (⟨s, j, op, o⟩ :: trace) = some seen := by
  rw [firstRead_cons, h]
  rfl

namespace Recorded

/-- The trace of one update does not depend on the others. -/
theorem other (h : Recorded userOf id i s trace stage) (hne : j ≠ i) :
    Recorded userOf id i s' (⟨s, j, op, o⟩ :: trace) stage := by
  have hcommits : CommitsAsRead id i (⟨s, j, op, o⟩ :: trace) ↔ CommitsAsRead id i trace :=
    commitsAsRead_cons.trans (and_iff_right fun heq ↦ (hne heq).elim)
  constructor
  · intro published
    rw [byCaller_announcements_cons_of_ne hne]
    exact h.announced published
  · rw [firstRead_cons_of_ne hne]
    exact h.firstRead
  · intro huncommitted
    rw [hcommits]
    exact ⟨(h.uncommitted huncommitted).1, fun published ↦
      (byCaller_flips_cons_of_ne hne published).trans ((h.uncommitted huncommitted).2 published)⟩
  · intro seen value hstage
    obtain ⟨old, hold, hmade⟩ := h.committed seen value hstage
    exact ⟨old, hcommits.trans hold, fun published ↦
      (byCaller_flips_cons_of_ne hne published).trans (hmade published)⟩

/-- A statement before the commit leaves no trace but what it reads. -/
theorem statement (h : Recorded userOf id i s trace stage) (uncommitted : stage.Uncommitted)
    (uncommitted' : stage'.Uncommitted) (same : s'.committed = s.committed)
    (hop : op ≠ .commitTransaction) (silent : ∀ event, op ≠ .emit event)
    (read : stage' = .broken ∨ Templates.firstRead i (⟨s, i, op, o⟩ :: trace) = stage'.seen?) :
    Recorded userOf id i s' (⟨s, i, op, o⟩ :: trace) stage' := by
  have hquiet : ∀ published, announcement published (⟨s, i, op, o⟩ : Call ι) = none := by
    intro published
    unfold announcement
    split
    · next hevent => exact (silent _ hevent).elim
    · next hevent => exact (silent _ hevent).elim
    · rfl
  constructor
  · intro published
    unfold announcements
    rw [List.filterMap_cons_none (hquiet published)]
    refine (h.announced published).trans ?_
    cases stage <;> cases stage' <;> first | rfl | exact uncommitted.elim | exact uncommitted'.elim
  · exact read
  · intro _
    refine ⟨commitsAsRead_cons.mpr ⟨fun _ hcommit ↦ (hop hcommit).elim, (h.uncommitted uncommitted).1⟩,
      fun published ↦ ?_⟩
    rw [flips_cons_of_same same]
    exact (h.uncommitted uncommitted).2 published
  · rintro seen value (rfl | rfl)
    · exact uncommitted'.elim
    · exact uncommitted'.elim

/-- The commit makes a change where the row differs from what was committed. -/
theorem commit {seen value : Bool} (h : Recorded userOf id i s trace (.written seen value))
    (holds : Stage.Holds id i s (.written seen value)) :
    Recorded userOf id i (s.commit i) (⟨s, i, .commitTransaction, .returned ()⟩ :: trace)
      (.committed seen value) := by
  obtain ⟨-, hsome, hview⟩ := holds
  obtain ⟨row, hrow⟩ := Option.ne_none_iff_exists'.mp hsome
  have hold : committedPublished s id = some row.isPublished := by
    unfold committedPublished
    rw [hrow, Option.map_some]
  have hread : Templates.firstRead i trace = some seen := h.firstRead.resolve_left (by rintro ⟨⟩)
  constructor
  · exact h.announced
  · exact .inr (firstRead_cons_of_some hread)
  · exact False.elim
  · intro seen' value' hstage
    obtain ⟨rfl, rfl⟩ : seen = seen' ∧ value = value' := by
      rcases hstage with heq | heq
      · exact Stage.committed.inj heq
      · cases heq
    refine ⟨row.isPublished, ?_, fun published ↦ ?_⟩
    · rw [commitsAsRead_cons, hread, hold]
      constructor
      · rintro ⟨hcommit, -⟩
        exact Option.some.inj (hcommit rfl rfl)
      · rintro rfl
        exact ⟨fun _ _ ↦ rfl, (h.uncommitted trivial).1⟩
    · rw [byCaller_flips_cons, (h.uncommitted trivial).2 published, List.append_nil]
      unfold flip
      have hafter : committedPublished (s.commit i) id = some value := hview
      simp only [hold, hafter, Option.some.injEq]
      have hiff : (row.isPublished = !published) ∧ value = published ↔
          value ≠ row.isPublished ∧ value = published := by
        cases row.isPublished <;> cases published <;> cases value <;> decide
      by_cases hchanged : value ≠ row.isPublished ∧ value = published
      · rw [if_pos hchanged, if_pos (hiff.mpr hchanged)]
        rfl
      · rw [if_neg hchanged, if_neg fun hmade ↦ hchanged (hiff.mp hmade)]
        rfl

/-- After the commit only announcements are left. -/
theorem emit {event : TemplateEvent} {o : Outcome TemplateError Unit} {seen value : Bool}
    (h : Recorded userOf id i s trace (.committed seen value))
    (hstage : stage' = .committed seen value ∨ stage' = .announced seen value)
    (announced : ∀ published,
      (announcement published (⟨s, i, .emit event, o⟩ : Call ι)).toList =
        stage'.announcements (changeOf userOf id i) published) :
    Recorded userOf id i s (⟨s, i, .emit event, o⟩ :: trace) stage' := by
  have hread : Templates.firstRead i trace = some seen := h.firstRead.resolve_left (by rintro ⟨⟩)
  constructor
  · intro published
    rw [byCaller_announcements_cons, announced published, h.announced published]
    exact List.append_nil _
  · refine .inr ((firstRead_cons_of_some hread).trans ?_)
    rcases hstage with rfl | rfl <;> rfl
  · rcases hstage with rfl | rfl <;> exact False.elim
  · intro seen' value' hstage'
    have heq : seen = seen' ∧ value = value' := by
      rcases hstage with rfl | rfl <;> rcases hstage' with h | h <;> cases h <;> exact ⟨rfl, rfl⟩
    obtain ⟨rfl, rfl⟩ := heq
    obtain ⟨old, hold, hmade⟩ := h.committed seen value (.inl rfl)
    refine ⟨old, ?_, fun published ↦ ?_⟩
    · rw [commitsAsRead_cons, ← hold]
      exact and_iff_right fun _ hcommit ↦ by cases hcommit
    · rw [flips_cons_of_same rfl]
      exact hmade published

end Recorded

omit [DecidableEq ι] in
theorem Stage.Holds.apart (h : stage.Holds id i s) (apart : Tables.Apart i s s') :
    stage.Holds id i s' := by
  cases stage with
  | reading => exact apart.idle h
  | read seen => exact apart.idle h
  | locked seen =>
    refine ⟨apart.writes h.1, ?_⟩
    rw [apart.committed _ h.1]
    exact h.2
  | written seen published =>
    refine ⟨apart.writes h.1, ?_, ?_⟩
    · rw [apart.committed _ h.1]
      exact h.2.1
    · rw [apart.view h.1]
      exact h.2.2
  | _ => trivial

omit [DecidableEq ι] in
/-- Statements on sections leave the row of the template alone. -/
theorem Stage.Holds.sections {seen published : Bool} {keys : Key → Prop}
    (h : Stage.Holds id i s (.written seen published)) (touched : Tables.Touched i keys s s')
    (hkeys : ¬keys (.template id)) : Stage.Holds id i s' (.written seen published) := by
  obtain ⟨hwrites, hsome, hview⟩ := h
  refine ⟨touched.writes hwrites, ?_, ?_⟩
  · rw [touched.committed]
    exact hsome
  · rw [touched.view_of_not hkeys]
    exact hview

/-- Every call of an update keeps what it knows. -/
theorem Stage.Holds.step (h : stage.Holds id i s) (htemplate : input.templateId = id)
    (answers : (world ι).Answers TemplateError i op s o s') (next : Updates input stage op o stage') :
    stage'.Holds id i s' := by
  subst htemplate
  cases next with
  | read =>
    rw [same_of_read answers fun _ ↦ rfl]
    exact h
  | findSections =>
    rw [same_of_read answers fun _ ↦ rfl]
    exact h
  | start =>
    rw [same_of_read answers fun _ ↦ rfl]
    exact h
  | reread =>
    rw [same_of_read answers fun _ ↦ rfl]
    exact h
  | lock =>
    cases answers with
    | returned effect =>
      obtain ⟨reply, heffect⟩ := effect
      rcases lockTemplate_eq heffect with ⟨hnone, -⟩ | ⟨-, hrow, grants, rfl⟩
      · cases hnone
      · refine ⟨Tables.writes_lock grants rfl, ?_⟩
        rw [Tables.Idle.view h] at hrow
        rw [Tables.lock_committed, ← hrow]
        exact Option.some_ne_none _
  | update =>
    cases answers with
    | returned effect =>
      obtain ⟨reply, heffect⟩ := effect
      obtain ⟨after, hupdate, heq⟩ := Option.map_eq_some_iff.mp heffect
      cases heq
      obtain ⟨htouched, hview, hwrites⟩ := Tables.Touched.put hupdate
      refine ⟨hwrites, ?_, ?_⟩
      · rw [htouched.committed]
        exact h.2
      · rw [hview, Option.map_some]
  | deleteSections =>
    cases answers with
    | returned effect =>
      obtain ⟨reply, heffect⟩ := effect
      obtain ⟨after, hdelete, heq⟩ := Option.map_eq_some_iff.mp heffect
      cases heq
      refine Stage.Holds.sections h (Tables.Touched.deleteAll hdelete) fun hmem ↦ ?_
      obtain ⟨row, -, hof⟩ := Tables.mem_scan.mp hmem
      cases hof
  | insertSections =>
    cases answers with
    | returned effect =>
      obtain ⟨reply, heffect⟩ := effect
      obtain ⟨after, hinsert, heq⟩ := Option.map_eq_some_iff.mp heffect
      cases heq
      refine Stage.Holds.sections h (touched_insertSections hinsert) ?_
      rintro ⟨n, ⟨⟩⟩
  | fail => trivial
  | commit => trivial
  | updated => trivial
  | announce => trivial

/-- Every call of an update is recorded. -/
theorem Recorded.step (h : Recorded userOf id i s trace stage) (holds : stage.Holds id i s)
    (htemplate : input.templateId = id) (huser : input.userId = userOf i)
    (answers : (world ι).Answers TemplateError i op s o s') (next : Updates input stage op o stage') :
    Recorded userOf id i s' (⟨s, i, op, o⟩ :: trace) stage' := by
  have hsame := committed_of_answers answers
  have hread : ∀ {seen}, stage.seen? = some seen → stage ≠ .broken → stage'.seen? = some seen →
      stage' = .broken ∨ Templates.firstRead i (⟨s, i, op, o⟩ :: trace) = stage'.seen? :=
    fun hseen hstage hseen' ↦ .inr
      ((firstRead_cons_of_some ((h.firstRead.resolve_left hstage).trans hseen)).trans hseen'.symm)
  cases next with
  | @read row =>
    refine h.statement trivial trivial (hsame (by rintro ⟨⟩)) (by rintro ⟨⟩) (by rintro _ ⟨⟩) (.inr ?_)
    rw [firstRead_cons, h.firstRead.resolve_left (by rintro ⟨⟩), if_pos rfl]
    rfl
  | findSections uncommitted =>
    refine h.statement uncommitted uncommitted (hsame (by rintro ⟨⟩)) (by rintro ⟨⟩)
      (by rintro _ ⟨⟩) (h.firstRead.imp_right fun hfirst ↦ ?_)
    rw [firstRead_cons, hfirst, if_pos rfl]
    cases stage <;> rfl
  | start =>
    exact h.statement trivial trivial (hsame (by rintro ⟨⟩)) (by rintro ⟨⟩) (by rintro _ ⟨⟩)
      (hread rfl (by rintro ⟨⟩) rfl)
  | lock =>
    exact h.statement trivial trivial (hsame (by rintro ⟨⟩)) (by rintro ⟨⟩) (by rintro _ ⟨⟩)
      (hread rfl (by rintro ⟨⟩) rfl)
  | reread =>
    exact h.statement trivial trivial (hsame (by rintro ⟨⟩)) (by rintro ⟨⟩) (by rintro _ ⟨⟩)
      (hread rfl (by rintro ⟨⟩) rfl)
  | update =>
    exact h.statement trivial trivial (hsame (by rintro ⟨⟩)) (by rintro ⟨⟩) (by rintro _ ⟨⟩)
      (hread rfl (by rintro ⟨⟩) rfl)
  | deleteSections =>
    exact h.statement trivial trivial (hsame (by rintro ⟨⟩)) (by rintro ⟨⟩) (by rintro _ ⟨⟩)
      (hread rfl (by rintro ⟨⟩) rfl)
  | insertSections =>
    exact h.statement trivial trivial (hsame (by rintro ⟨⟩)) (by rintro ⟨⟩) (by rintro _ ⟨⟩)
      (hread rfl (by rintro ⟨⟩) rfl)
  | fail uncommitted statement silent =>
    exact h.statement uncommitted trivial (hsame statement) statement silent (.inl rfl)
  | commit =>
    obtain ⟨result, reply, heffect⟩ := answers.effect_of_sure Bool.false_ne_true
    cases heffect
    exact h.commit holds
  | updated =>
    rw [same_of_read answers fun _ ↦ rfl]
    exact h.emit (.inl rfl) fun _ ↦ rfl
  | @announce seen value =>
    rw [same_of_read answers fun _ ↦ rfl]
    refine h.emit (.inr rfl) fun published ↦ ?_
    rw [htemplate, huser]
    cases value <;> cases published <;> rfl

/-- The invariant of runs of updates. -/
structure Auditing (userOf : ι → UserId) (id : TemplateId) (s : Store ι) (φ : ι → Stage)
    (trace : List (Call ι)) : Prop where
  holds : ∀ i, (φ i).Holds id i s
  recorded : ∀ i, Recorded userOf id i s trace (φ i)

theorem Auditing.step {φ : ι → Stage} (h : Auditing userOf id s φ trace)
    (htemplate : input.templateId = id) (huser : input.userId = userOf i)
    (answers : (world ι).Answers TemplateError i op s o s') (next : Updates input (φ i) op o stage') :
    Auditing userOf id s' (Function.update φ i stage') (⟨s, i, op, o⟩ :: trace) := by
  constructor
  · intro j
    by_cases hj : j = i
    · subst hj
      rw [Function.update_self]
      exact (h.holds j).step htemplate answers next
    · rw [Function.update_of_ne hj]
      exact (h.holds j).apart ((step_of_answers answers).apart hj)
  · intro j
    by_cases hj : j = i
    · subst hj
      rw [Function.update_self]
      exact (h.recorded j).step (h.holds j) htemplate huser answers next
    · rw [Function.update_of_ne hj]
      exact (h.recorded j).other (Ne.symm hj)

/-- An update that has ended has announced what it has changed just where its commit found what it
had read. -/
theorem Recorded.announced_iff (h : Recorded userOf id i s trace stage)
    (ended : stage.Settled ∨ stage.Uncommitted) :
    (∀ published, Flip.byCaller i (announcements published trace) =
      Flip.byCaller i (flips userOf id published s trace)) ↔ CommitsAsRead id i trace := by
  rcases ended with (⟨seen, rfl⟩ | ⟨seen, value, hne, rfl⟩) | huncommitted
  · obtain ⟨old, hold, hmade⟩ := h.committed seen seen (.inl rfl)
    simp only [h.announced, hmade, hold]
    constructor
    · intro hsame
      by_contra hne
      have hpublished := hsame seen
      rw [if_pos ⟨hne, rfl⟩] at hpublished
      cases hpublished
    · rintro rfl published
      exact (if_neg fun hchanged ↦ hchanged.1 rfl).symm
  · obtain ⟨old, hold, hmade⟩ := h.committed seen value (.inr rfl)
    simp only [h.announced, hmade, hold]
    constructor
    · intro hsame
      by_contra hold
      have hvalue : ¬(value ≠ old ∧ value = value) := by
        revert hne hold
        cases seen <;> cases value <;> cases old <;> decide
      have hpublished := hsame value
      rw [if_neg hvalue] at hpublished
      exact List.cons_ne_nil _ _ ((if_pos rfl).symm.trans hpublished)
    · rintro rfl published
      by_cases hvalue : value = published
      · rw [if_pos ⟨hne, hvalue⟩]
        exact if_pos hvalue
      · rw [if_neg fun hchanged ↦ hvalue hchanged.2]
        exact if_neg hvalue
  · obtain ⟨hcommits, hnone⟩ := h.uncommitted huncommitted
    refine iff_of_true (fun published ↦ ?_) hcommits
    rw [h.announced, hnone]
    cases stage <;> first | rfl | exact huncommitted.elim

end Runs

/-- However updates of a template interleave, once all that have begun have ended: an update has
announced the change that it made, and no other, just where the template was as published at its
commit as it was when the update read it; and if that holds of every update, the announcements are
the changes, each by the request and the user that made it. -/
theorem publications_announced {ι : Type} [DecidableEq ι] {start : Store ι}
    (idle : ∀ i, start.Idle i) {id : TemplateId} {inputs : ι → UpdateTemplateInput}
    (same : ∀ i, (inputs i).templateId = id)
    {config : Config ι (Store ι) Ans TemplateError Template}
    (reachable : (world ι).Reachable (Config.initial start fun i ↦ updateTemplate (inputs i)) config)
    (ended : ∀ i, config.Started i → (config.threads i).Finished) :
    (∀ i, (∀ published, Flip.byCaller i (announcements published config.trace) =
        Flip.byCaller i (flips (fun i ↦ (inputs i).userId) id published config.shared config.trace)) ↔
      CommitsAsRead id i config.trace) ∧
    ((∀ i, CommitsAsRead id i config.trace) → ∀ published,
      (announcements published config.trace).Perm
        (flips (fun i ↦ (inputs i).userId) id published config.shared config.trace)) := by
  obtain ⟨φ, htracked, hconform⟩ := World.exists_tracked (T := fun i ↦ updates (inputs i)) rfl
    (fun i ↦ updateTemplate_updates) reachable
  have hstart : Auditing (fun i ↦ (inputs i).userId) id start (fun _ ↦ .reading)
      ([] : List (Call ι)) := by
    refine ⟨idle, fun i ↦ ⟨fun _ ↦ rfl, .inr rfl, fun _ ↦ ⟨trivial, fun _ ↦ rfl⟩, ?_⟩⟩
    intro seen value hstage
    rcases hstage with hstage | hstage <;> cases hstage
  have hrun := htracked.invariant (Auditing (fun i ↦ (inputs i).userId) id) (fun _ ↦ True) hstart
    (fun h _ answers next ↦ h.step (same _) rfl answers next) fun _ _ ↦ trivial
  have hended : ∀ i, (φ i).Settled ∨ (φ i).Uncommitted := by
    intro i
    by_cases hstarted : config.Started i
    · have hphase := hconform i
      cases hthread : config.threads i with
      | pure value =>
        rw [hthread] at hphase
        exact .inl hphase
      | throw error =>
        rw [hthread] at hphase
        exact .inr hphase
      | call op next =>
        have hfinished := ended i hstarted
        rw [hthread] at hfinished
        exact hfinished.elim
    · have hreading : φ i = .reading :=
        htracked.phase_of_not_started fun event hevent hcaller ↦ hstarted ⟨event, hevent, hcaller⟩
      rw [hreading]
      exact .inr trivial
  have hiff := fun i ↦ (hrun.recorded i).announced_iff (hended i)
  exact ⟨hiff, fun hcommits published ↦
    Flip.perm_of_byCaller fun i ↦ (hiff i).mpr (hcommits i) published⟩

def editor : UserId := ⟨"editor", by decide⟩

/-- Two admins publish the template. -/
def publishTwice : Bool → UpdateTemplateInput
  | false => ⟨root, .admin, briefing, { isPublished := some true }⟩
  | true => ⟨editor, .admin, briefing, { isPublished := some true }⟩

/-- The second admin begins when the first is done. -/
def publishedInTurn : List (Move Bool Reply TemplateError) :=
  (List.replicate 10 false ++ List.replicate 9 true).map fun i ↦
    ⟨i, { templateId := briefing }, .returned ()⟩

/-- Both read the template before either locks it. -/
def publishedAtOnce : List (Move Bool Reply TemplateError) :=
  ([false, false, true, true] ++ List.replicate 8 false ++ List.replicate 8 true).map fun i ↦
    ⟨i, { templateId := briefing }, .returned ()⟩

def publishing : Config Bool (Store Bool) Ans TemplateError Template :=
  Config.initial (Tables.ofRows _ draftRows draftRows_known) fun i ↦ updateTemplate (publishTwice i)

/-- The request has returned. -/
def returned (config : Config Bool (Store Bool) Ans TemplateError Template) (i : Bool) : Bool :=
  decide (config.threads i).Finished && (config.threads i).thrown.isNone

/-- What is announced and what is changed. -/
def trailOf (published : Bool) (config : Config Bool (Store Bool) Ans TemplateError Template) :
    List (Flip Bool) × List (Flip Bool) :=
  (announcements published config.trace,
    flips (fun i ↦ (publishTwice i).userId) briefing published config.shared config.trace)

/-- What comes of the two requests: who is done, and the trail in both directions. -/
def publishingView (config : Config Bool (Store Bool) Ans TemplateError Template) :
    (Bool × Bool) × (List (Flip Bool) × List (Flip Bool)) × List (Flip Bool) × List (Flip Bool) :=
  ((returned config false, returned config true), trailOf false config, trailOf true config)

theorem finished_of_returned {config : Config Bool (Store Bool) Ans TemplateError Template} {i : Bool}
    (h : returned config i = true) : (config.threads i).Finished :=
  of_decide_eq_true (Bool.and_eq_true_iff.mp h).1

/-- Both updates succeed and both announce the one publication. -/
theorem publications_announced_twice :
    ∃ config, (world Bool).Reachable publishing config ∧ (∀ i, returned config i = true) ∧
      ¬(announcements true config.trace).Perm
        (flips (fun i ↦ (publishTwice i).userId) briefing true config.shared config.trace) := by
  have hreplay : ((sessions Bool).replay publishing publishedAtOnce).map publishingView =
      some ((true, true), ([], []), [⟨true, editor, briefing⟩, ⟨false, root, briefing⟩],
        [⟨false, root, briefing⟩]) := by decide +kernel
  obtain ⟨config, hreachable, hview⟩ := (sessions Bool).exists_reachable hreplay
  obtain ⟨hreturned, htrails⟩ := Prod.mk.inj hview
  obtain ⟨hannounced, hflips⟩ := Prod.mk.inj (Prod.mk.inj htrails).2
  refine ⟨config, hreachable, Bool.forall_bool.mpr (Prod.mk.inj hreturned), fun hperm ↦ ?_⟩
  rw [hannounced, hflips] at hperm
  cases hperm.length_eq

theorem publications_announced_in_turn :
    ∃ config : Config Bool (Store Bool) Ans TemplateError Template,
      (∀ i, returned config i = true) ∧ (∀ i, CommitsAsRead briefing i config.trace) ∧
      announcements true config.trace = [⟨false, root, briefing⟩] ∧
      ∀ published, (announcements published config.trace).Perm
        (flips (fun i ↦ (publishTwice i).userId) briefing published config.shared config.trace) := by
  have hreplay : ((sessions Bool).replay publishing publishedInTurn).map publishingView =
      some ((true, true), ([], []), [⟨false, root, briefing⟩], [⟨false, root, briefing⟩]) := by
    decide +kernel
  obtain ⟨config, hreachable, hview⟩ := (sessions Bool).exists_reachable hreplay
  obtain ⟨hreturned, htrails⟩ := Prod.mk.inj hview
  obtain ⟨hunpublished, hpublished⟩ := Prod.mk.inj htrails
  have hreturned : ∀ i, returned config i = true :=
    Bool.forall_bool.mpr (Prod.mk.inj hreturned)
  have hsame : ∀ published, announcements published config.trace =
      flips (fun i ↦ (publishTwice i).userId) briefing published config.shared config.trace := by
    have hfalse := Prod.mk.inj hunpublished
    have htrue := Prod.mk.inj hpublished
    exact Bool.forall_bool.mpr ⟨hfalse.1.trans hfalse.2.symm, htrue.1.trans htrue.2.symm⟩
  have hannounced := publications_announced (fun _ ↦ Tables.idle_ofRows)
    (Bool.forall_bool.mpr ⟨rfl, rfl⟩) hreachable fun i _ ↦ finished_of_returned (hreturned i)
  have hcommits : ∀ i, CommitsAsRead briefing i config.trace := fun i ↦
    (hannounced.1 i).mp fun published ↦ congrArg (Flip.byCaller i) (hsame published)
  exact ⟨config, hreturned, hcommits, (Prod.mk.inj hpublished).1, hannounced.2 hcommits⟩

end MemoFlowApi.Templates
