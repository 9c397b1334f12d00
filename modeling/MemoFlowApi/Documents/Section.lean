import Mathlib.Data.List.Nodup
import MemoFlowApi.Lists.FirstByKey
import MemoFlowApi.Uuid

/-!
# Sections

The rows of `sections` and the table they form.  The table carries its primary key as a proof:
generated ids are numbered, and every row has an id that was generated.
-/

namespace MemoFlowApi.Documents

abbrev UserId := Uuid

abbrev DocumentId := Uuid

/-! ## Words -/

/-- White space of a regular expression's `\s`, which is also what `trim` removes. -/
def isSpace (c : Char) : Bool :=
  let code := c.toNat
  (9 ≤ code && code ≤ 13) || code = 0x20 || code = 0xa0 || code = 0x1680 ||
    (0x2000 ≤ code && code ≤ 0x200a) || code = 0x2028 || code = 0x2029 || code = 0x202f ||
    code = 0x205f || code = 0x3000 || code = 0xfeff

def trim (text : List Char) : List Char :=
  ((text.dropWhile isSpace).reverse.dropWhile isSpace).reverse

/-- `split(/\s+/)`: a run of white space separates once. -/
def splitSpaces : List Char → List (List Char)
  | [] => [[]]
  | c :: text =>
    let words := splitSpaces text
    if isSpace c then
      if text.head?.any isSpace then words else [] :: words
    else
      match words with
      | [] => [[c]]
      | word :: words => (c :: word) :: words

def wordCount (content : String) : ℕ :=
  let trimmed := trim content.toList
  if trimmed = [] then 0 else (splitSpaces trimmed).length

@[simp]
theorem wordCount_empty : wordCount "" = 0 := rfl

/-! ## Rows -/

structure Section where
  /-- A generated uuid; they are numbered in the order of their generation. -/
  id : ℕ
  documentId : DocumentId
  title : String
  content : String
  order : ℤ
  status : String
  wordCount : ℕ
  /-- A time in milliseconds. -/
  createdAt : ℕ
  updatedAt : ℕ
  deriving DecidableEq

/-- The fields that a caller gives for a new row: `ReplaceSectionData`. -/
structure SectionData where
  title : String
  content : String
  order : ℤ
  status : String
  wordCount : ℕ
  deriving DecidableEq

/-- The columns an `UPDATE` sets; an absent one is kept. -/
structure UpdateSectionData where
  title : Option String := none
  content : Option String := none
  status : Option String := none
  wordCount : Option ℕ := none
  order : Option ℤ := none

def Section.data (row : Section) : SectionData where
  title := row.title
  content := row.content
  order := row.order
  status := row.status
  wordCount := row.wordCount

/-- A new row.  Both time columns default to the time of its transaction. -/
def SectionData.create (data : SectionData) (documentId : DocumentId) (id : ℕ) (time : ℕ) :
    Section where
  id := id
  documentId := documentId
  title := data.title
  content := data.content
  order := data.order
  status := data.status
  wordCount := data.wordCount
  createdAt := time
  updatedAt := time

/-- A row after an `UPDATE`. -/
def Section.update (row : Section) (patch : UpdateSectionData) (time : ℕ) : Section :=
  { row with
    title := patch.title.getD row.title
    content := patch.content.getD row.content
    status := patch.status.getD row.status
    wordCount := patch.wordCount.getD row.wordCount
    order := patch.order.getD row.order
    updatedAt := time }

@[simp]
theorem SectionData.data_create (data : SectionData) (documentId : DocumentId) (id : ℕ)
    (time : ℕ) : (data.create documentId id time).data = data := rfl

/-! ## The table -/

structure SectionTable where
  rows : List Section
  /-- The number of ids generated so far. -/
  generated : ℕ
  id_lt : ∀ row ∈ rows, row.id < generated
  nodup_id : (rows.map (·.id)).Nodup

namespace SectionTable

/-- Rows for new sections, in order. -/
def newRows (documentId : DocumentId) (time : ℕ) : ℕ → List SectionData → List Section
  | _, [] => []
  | id, data :: rest => data.create documentId id time :: newRows documentId time (id + 1) rest

variable {documentId : DocumentId} {time : ℕ}

theorem newRows_data (documentId : DocumentId) (time : ℕ) (id : ℕ) (data : List SectionData) :
    (newRows documentId time id data).map (·.data) = data := by
  induction data generalizing id with
  | nil => rfl
  | cons first rest ih => rw [newRows, List.map_cons, ih, SectionData.data_create]

theorem newRows_documentId {id : ℕ} {data : List SectionData} {row : Section}
    (mem : row ∈ newRows documentId time id data) : row.documentId = documentId := by
  induction data generalizing id with
  | nil => cases mem
  | cons first rest ih =>
    rcases List.mem_cons.mp mem with rfl | hrest
    · rfl
    · exact ih hrest

theorem newRows_id {id : ℕ} {data : List SectionData} {row : Section}
    (mem : row ∈ newRows documentId time id data) : id ≤ row.id ∧ row.id < id + data.length := by
  induction data generalizing id with
  | nil => cases mem
  | cons first rest ih =>
    rw [List.length_cons]
    rcases List.mem_cons.mp mem with rfl | hrest
    · change id ≤ id ∧ id < _
      omega
    · have hid := ih hrest
      omega

theorem nodup_newRows (id : ℕ) (data : List SectionData) :
    ((newRows documentId time id data).map (·.id)).Nodup := by
  induction data generalizing id with
  | nil => exact List.nodup_nil
  | cons first rest ih =>
    refine List.nodup_cons.mpr ⟨fun hmem ↦ ?_, ih (id + 1)⟩
    obtain ⟨row, hrow, hid⟩ := List.mem_map.mp hmem
    have hlower := (newRows_id hrow).1
    change row.id = id at hid
    omega

/-- `INSERT INTO sections`. -/
def insert (table : SectionTable) (documentId : DocumentId) (data : List SectionData) (time : ℕ) :
    SectionTable where
  rows := table.rows ++ newRows documentId time table.generated data
  generated := table.generated + data.length
  id_lt := by
    intro row hrow
    rcases List.mem_append.mp hrow with hold | hnew
    · exact Nat.lt_add_right _ (table.id_lt row hold)
    · exact (newRows_id hnew).2
  nodup_id := by
    rw [List.map_append]
    refine table.nodup_id.append (nodup_newRows _ data) ?_
    rw [List.disjoint_left]
    intro id hold hnew
    obtain ⟨row, hrow, rfl⟩ := List.mem_map.mp hold
    obtain ⟨row', hrow', hid⟩ := List.mem_map.mp hnew
    have hlower := (newRows_id hrow').1
    have hupper := table.id_lt row hrow
    omega

/-- `UPDATE sections SET … WHERE …`. -/
def update (table : SectionTable) (matching : Section → Bool) (patch : UpdateSectionData)
    (time : ℕ) : SectionTable where
  rows := table.rows.map fun row ↦ if matching row then row.update patch time else row
  generated := table.generated
  id_lt := by
    intro row hrow
    obtain ⟨old, hold, rfl⟩ := List.mem_map.mp hrow
    have hid := table.id_lt old hold
    split <;> exact hid
  nodup_id := by
    have hsame : ((fun row : Section ↦ row.id) ∘
        fun row ↦ if matching row then row.update patch time else row) = (·.id) := by
      funext row
      dsimp only [Function.comp_apply]
      split <;> rfl
    rw [List.map_map, hsame]
    exact table.nodup_id

/-- `DELETE FROM sections WHERE …`. -/
def delete (table : SectionTable) (matching : Section → Bool) : SectionTable where
  rows := table.rows.filter fun row ↦ !matching row
  generated := table.generated
  id_lt row hrow := table.id_lt row (List.mem_of_mem_filter hrow)
  nodup_id := table.nodup_id.sublist (List.filter_sublist.map _)

def findById (table : SectionTable) (id : ℕ) : Option Section :=
  table.rows.find? (·.id = id)

/-- The rows of a document. -/
def ofDocument (table : SectionTable) (documentId : DocumentId) : List Section :=
  table.rows.filter (·.documentId = documentId)

/-- `ORDER BY "order" ASC, created_at ASC`. -/
def comesBefore (a b : Section) : Bool :=
  a.order < b.order || (a.order = b.order && a.createdAt ≤ b.createdAt)

def findByDocument (table : SectionTable) (documentId : DocumentId) : List Section :=
  (table.ofDocument documentId).mergeSort comesBefore

/-- `SELECT MAX("order")`. -/
def maxOrder (table : SectionTable) (documentId : DocumentId) : Option ℤ :=
  ((table.ofDocument documentId).map (·.order)).max?

/-- One `UPDATE` of a reorder: an id and its index. -/
def setOrder (documentId : DocumentId) (time : ℕ) (table : SectionTable) (entry : ℕ × ℕ) :
    SectionTable :=
  table.update (fun row ↦ row.id = entry.1 && row.documentId = documentId)
    { order := some entry.2 } time

/-- The transaction of `reorder`. -/
def reorder (table : SectionTable) (documentId : DocumentId) (orderedIds : List ℕ) (time : ℕ) :
    SectionTable :=
  orderedIds.zipIdx.foldl (setOrder documentId time) table

/-- The transaction of `replaceAll`. -/
def replaceAll (table : SectionTable) (documentId : DocumentId) (sections : List SectionData)
    (time : ℕ) : SectionTable :=
  (table.delete (·.documentId = documentId)).insert documentId sections time

end SectionTable

end MemoFlowApi.Documents
