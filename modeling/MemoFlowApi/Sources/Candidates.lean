import Mathlib.Data.List.Sort
import MemoFlowApi.Prompts.Values
import MemoFlowApi.Retrieval.SectionRetriever
import MemoFlowApi.Sources.Budget

/-!
# Candidates of the Planning Sources

The sections that were retrieved and the entries of the connector context become candidates.  They are
put into the order of the budget: sections of the bound document, connectors, other documents.
-/

namespace MemoFlowApi.Sources

open Js Prompts Retrieval

/-- Where a source sits in the order of the budget. -/
inductive SourceGroup where
  | boundDocument
  | connector
  | otherDocument
  deriving DecidableEq

/-- A candidate with its group. -/
structure GroupedCandidate extends SourceCandidate where
  group : SourceGroup

/-! ## Connectors -/

/-- The context of the gatherer that stands in for a context engine. -/
def stubContextNote : Text :=
  Text.of "stub — no context engine configured (CONTEXT_ENGINE_URL unset)"

/-- A connector chunk, or the entry of a provider. -/
structure ConnectorEntry where
  provider : Text
  content : Text

variable (isLetter : CodePoint → Bool)

def contentToString : Option JsonValue → Text
  | some (.string text) => text
  | none | some .null => []
  | some (.bool value) => stringify (.bool value)
  | some (.number literal) => literal
  | some value => stringify (prepareUntrustedValue isLetter maxPrepareChars 0 value)

/-- The provider of a chunk. -/
def providerOf : Option JsonValue → Text
  | some (.string text) => if trim text ≠ [] then text else Text.of "connector"
  | _ => Text.of "connector"

/-- The entry of a chunk that is an object. -/
def chunkOf : JsonValue → Option ConnectorEntry
  | .object members =>
    some ⟨providerOf (memberOf (Text.of "provider") members),
      contentToString isLetter (memberOf (Text.of "content") members)⟩
  | _ => none

/-- The note of the stub. -/
def isStub (context : List (Text × JsonValue)) : Bool :=
  match memberOf (Text.of "note") context with
  | some (.string text) => text = stubContextNote
  | _ => false

/-- The entries of a member: one for each chunk, or one for its provider. -/
def entriesOf (stub : Bool) (key : Text) (value : JsonValue) : List ConnectorEntry :=
  let entries :=
    if stub && (key = Text.of "note" || key = Text.of "requestedConnectors") then []
    else [⟨key, contentToString isLetter (some value)⟩]
  match value with
  | .array chunks => if key = Text.of "chunks" then chunks.filterMap (chunkOf isLetter) else entries
  | _ => entries

def connectorEntries (context : List (Text × JsonValue)) : List ConnectorEntry :=
  (context.flatMap fun member ↦ entriesOf isLetter (isStub context) member.1 member.2).filter
    fun entry ↦ trim entry.content ≠ []

def connectorCandidates (context : List (Text × JsonValue)) : List GroupedCandidate :=
  (connectorEntries isLetter context).map fun entry ↦
    ⟨⟨.connector, entry.provider, entry.provider, entry.content⟩, .connector⟩

/-! ## Sections -/

def sectionCandidates (sections : List RetrievedSection) : List GroupedCandidate :=
  (sections.filter fun found ↦ trim (Text.of found.content) ≠ []).map fun found ↦
    ⟨⟨.section, Text.of found.sectionId.text,
      Text.of found.title ++ Text.of " (" ++ Text.of found.documentTitle ++ Text.of ")",
      Text.of found.content⟩, if found.inBoundDocument then .boundDocument else .otherDocument⟩

/-! ## Their order -/

def SourceGroup.rank : SourceGroup → ℕ
  | boundDocument => 0
  | connector => 1
  | otherDocument => 2

/-- Bound-document sections, then connector sources, then other documents. -/
def orderCandidates (candidates : List GroupedCandidate) : List GroupedCandidate :=
  candidates.insertionSort fun a b ↦ a.group.rank ≤ b.group.rank

theorem orderedInsert_append {α : Type} {r : α → α → Prop} [DecidableRel r] {a : α} {before after : List α}
    (hbefore : ∀ b ∈ before, ¬r a b) (hafter : ∀ b ∈ after, r a b) :
    (before ++ after).orderedInsert r a = before ++ a :: after := by
  induction before with
  | nil =>
    cases after with
    | nil => rfl
    | cons b after => exact List.orderedInsert_cons_of_le r after (hafter b List.mem_cons_self)
  | cons b before ih =>
    rw [List.cons_append, List.orderedInsert_of_not_le r _ (hbefore b List.mem_cons_self),
      ih fun b hb ↦ hbefore b (List.mem_cons_of_mem _ hb), List.cons_append]

theorem group_of_mem_filter {group : SourceGroup} {candidates : List GroupedCandidate}
    {candidate : GroupedCandidate} (h : candidate ∈ candidates.filter (·.group = group)) :
    candidate.group = group :=
  of_decide_eq_true (List.mem_filter.mp h).2

/-- Each group keeps its order. -/
theorem orderCandidates_eq (candidates : List GroupedCandidate) :
    orderCandidates candidates = candidates.filter (·.group = .boundDocument) ++
      (candidates.filter (·.group = .connector) ++ candidates.filter (·.group = .otherDocument)) := by
  induction candidates with
  | nil => rfl
  | cons candidate candidates ih =>
    have hinsert : orderCandidates (candidate :: candidates) = (orderCandidates candidates).orderedInsert
        (fun a b ↦ a.group.rank ≤ b.group.rank) candidate := rfl
    have hle : ∀ {group : SourceGroup}, ∀ a ∈ candidates.filter (·.group = group),
        candidate.group.rank ≤ a.group.rank ↔ candidate.group.rank ≤ group.rank := by
      intro group a ha
      rw [group_of_mem_filter ha]
    rw [hinsert, ih]
    cases hgroup : candidate.group with
    | boundDocument =>
      simp only [List.filter_cons, hgroup, reduceCtorEq, decide_true, decide_false, Bool.false_eq_true,
        if_true, if_false]
      refine orderedInsert_append (List.forall_mem_nil _) (List.forall_mem_append.mpr ⟨?_,
        List.forall_mem_append.mpr ⟨?_, ?_⟩⟩) <;>
        exact fun a ha ↦ (hle a ha).mpr (by simp [hgroup, SourceGroup.rank])
    | connector =>
      simp only [List.filter_cons, hgroup, reduceCtorEq, decide_true, decide_false, Bool.false_eq_true,
        if_true, if_false]
      refine orderedInsert_append ?_ (List.forall_mem_append.mpr ⟨?_, ?_⟩)
      · exact fun a ha h ↦ absurd ((hle a ha).mp h) (by simp [hgroup, SourceGroup.rank])
      · exact fun a ha ↦ (hle a ha).mpr (by simp [hgroup, SourceGroup.rank])
      · exact fun a ha ↦ (hle a ha).mpr (by simp [hgroup, SourceGroup.rank])
    | otherDocument =>
      simp only [List.filter_cons, hgroup, reduceCtorEq, decide_true, decide_false, Bool.false_eq_true,
        if_true, if_false]
      rw [← List.append_assoc, ← List.append_assoc]
      refine orderedInsert_append (List.forall_mem_append.mpr ⟨?_, ?_⟩) ?_
      · exact fun a ha h ↦ absurd ((hle a ha).mp h) (by simp [hgroup, SourceGroup.rank])
      · exact fun a ha h ↦ absurd ((hle a ha).mp h) (by simp [hgroup, SourceGroup.rank])
      · exact fun a ha ↦ (hle a ha).mpr (by simp [hgroup, SourceGroup.rank])

end MemoFlowApi.Sources
