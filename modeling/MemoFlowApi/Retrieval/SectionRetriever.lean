import Mathlib.Data.String.Basic
import MemoFlowApi.Documents.Section
import MemoFlowApi.Js.Number
import MemoFlowApi.Sql.Select

/-!
# Section Retrieval

The sections that a planning job may draw on: those of the document that the job is bound to, and
those of the user's other documents that match its prompt.  Full-text search is Postgres's and stays
a parameter.
-/

namespace MemoFlowApi.Retrieval

open Js Sql

/-- The default of `SectionRetriever.search`. -/
def defaultSectionRetrievalLimit : ℕ := 8

/-- Most distinct terms of the prompt that are searched for. -/
def maxQueryTerms : ℕ := 64

def maxLimit : ℕ := 50

def maxContentChars : ℕ := 20000

/-! ## Tables -/

structure DocumentRow where
  id : Uuid
  userId : Uuid
  title : String
  deriving DecidableEq

structure SectionRow where
  id : Uuid
  documentId : Uuid
  title : String
  content : String
  order : ℤ
  deriving DecidableEq

/-- The two tables with their primary keys. -/
structure Database where
  documents : List DocumentRow
  sections : List SectionRow
  documents_nodup : (documents.map (·.id)).Nodup
  sections_nodup : (sections.map (·.id)).Nodup

/-- A lexeme of a text and how often it occurs. -/
structure Lexeme where
  lexeme : String
  positions : ℕ

/-- Full-text search: the lexemes of a text, whether the vector of a section matches the disjunction
of terms, and its rank. -/
structure TextSearch where
  toTsvector : String → List Lexeme
  matchesTerms : SectionRow → List String → Option Bool
  tsRank : SectionRow → List String → Option ℚ

/-! ## The search -/

structure SectionSearchInput where
  userId : Uuid
  documentId : Option Uuid := none
  sectionId : Option Uuid := none
  query : String
  limit : Option Number := none

structure RetrievedSection where
  sectionId : Uuid
  documentId : Uuid
  documentTitle : String
  title : String
  content : String
  inBoundDocument : Bool
  matched : Bool
  deriving DecidableEq

/-- Distinct lexemes of the text, the longer and the more frequent ones first. -/
def termsOf (search : TextSearch) (text : String) : List String :=
  if Documents.trim text.toList = [] then []
  else
    ((orderBy (fun l : Lexeme ↦
      toLex (desc l.lexeme.length, toLex (desc l.positions, l.lexeme)))
        (search.toTsvector text)).take maxQueryTerms).map (·.lexeme)

def limitOf (limit : Option Number) : Number :=
  Number.min (Number.max (limit.getD (.finite (defaultSectionRetrievalLimit : ℤ))).trunc
    (.finite (1 : ℤ))) (.finite (maxLimit : ℤ))

/-- `s.search_vector @@ query`, where no terms make a query of null. -/
def vectorMatches (search : TextSearch) (terms : List String) (s : SectionRow) : Option Bool :=
  if terms = [] then none else search.matchesTerms s terms

/-- `ts_rank(s.search_vector, query)`. -/
def rank (search : TextSearch) (terms : List String) (s : SectionRow) : Option ℚ :=
  if terms = [] then none else search.tsRank s terms

/-- `COALESCE($2, (SELECT s0.document_id FROM sections s0 WHERE s0.id = $3))`. -/
def boundDocument (db : Database) (input : SectionSearchInput) : Option Uuid :=
  input.documentId <|>
    ((filter (fun s0 ↦ eq (some s0.id) input.sectionId) db.sections).head?.map (·.documentId))

/-- The sections with their documents. -/
def joined (db : Database) : List (DocumentRow × SectionRow) :=
  db.documents.flatMap fun d ↦ (db.sections.filter (·.documentId = d.id)).map fun s ↦ (d, s)

/-- The sections of the bound document, if it is the user's. -/
def inBound (db : Database) (input : SectionSearchInput) : List (DocumentRow × SectionRow) :=
  filter (fun row ↦ and (eq (some row.1.userId) (some input.userId))
    (eq (some row.1.id) (boundDocument db input))) (joined db)

/-- The bound section first, then matches by rank, then the rest by order. -/
def boundKey (search : TextSearch) (input : SectionSearchInput) (terms : List String)
    (row : DocumentRow × SectionRow) : Boolᵒᵈ ×ₗ Boolᵒᵈ ×ₗ ℚᵒᵈ ×ₗ ℤ ×ₗ String :=
  toLex (desc ((eq (some row.2.id) input.sectionId).getD false),
    toLex (desc ((vectorMatches search terms row.2).getD false),
      toLex (desc ((rank search terms row.2).getD 0), toLex (row.2.order, row.2.id.text))))

def boundPairs (search : TextSearch) (db : Database) (input : SectionSearchInput)
    (terms : List String) : List (DocumentRow × SectionRow) :=
  orderBy (boundKey search input terms) (inBound db input)

/-- Matches in the user's other documents. -/
def elsewhere (search : TextSearch) (db : Database) (input : SectionSearchInput)
    (terms : List String) : List (DocumentRow × SectionRow) :=
  filter (fun row ↦ and (eq (some row.1.userId) (some input.userId))
    (and (vectorMatches search terms row.2)
      (isDistinctFrom (some row.1.id) (boundDocument db input)))) (joined db)

/-- By relevance. -/
def otherKey (search : TextSearch) (terms : List String) (row : DocumentRow × SectionRow) :
    (WithTop ℚ)ᵒᵈ ×ₗ ℤ ×ₗ String :=
  toLex (descNullsFirst (rank search terms row.2), toLex (row.2.order, row.2.id.text))

def otherPairs (search : TextSearch) (db : Database) (input : SectionSearchInput)
    (terms : List String) : List (DocumentRow × SectionRow) :=
  orderBy (otherKey search terms) (elsewhere search db input terms)

def toRetrieved (inBoundDocument matched : Bool) (row : DocumentRow × SectionRow) :
    RetrievedSection where
  sectionId := row.2.id
  documentId := row.1.id
  documentTitle := row.1.title
  title := row.2.title
  content := String.ofList (row.2.content.toList.take maxContentChars)
  inBoundDocument := inBoundDocument
  matched := matched

/-- The two queries with a limit that is an integer. -/
def searchWithin (search : TextSearch) (db : Database) (input : SectionSearchInput)
    (terms : List String) (limit : ℕ) : List RetrievedSection :=
  let boundRows := ((boundPairs search db input terms).take limit).map fun row ↦
    toRetrieved true ((vectorMatches search terms row.2).getD false) row
  let otherRows :=
    if terms ≠ [] ∧ boundRows.length < limit then
      ((otherPairs search db input terms).take limit).map (toRetrieved false true)
    else []
  (boundRows ++ otherRows).take limit

/-- The sections that are found, or nothing where Postgres rejects the limit. -/
def search (textSearch : TextSearch) (db : Database) (input : SectionSearchInput) :
    Option (List RetrievedSection) :=
  (limitOf input.limit).toInt?.map fun limit ↦
    searchWithin textSearch db input (termsOf textSearch input.query) limit.toNat

end MemoFlowApi.Retrieval
