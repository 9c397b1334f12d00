import MemoFlowApi.Documents.Section

/-!
# Document Versions

The collection `document_versions` with the validators of its schema.  It carries its unique index
on document and version as a proof, so no operation can build a collection that breaks it.
-/

namespace MemoFlowApi.Documents

/-- A required string path rejects the empty string. -/
def required (value : String) : Bool := value ≠ ""

/-- The validators of `SectionSnapshotOdm`. -/
def SectionData.Valid (snapshot : SectionData) : Bool :=
  required snapshot.title && required snapshot.content && required snapshot.status

/-- A version before MongoDB gives it an id. -/
structure NewVersion where
  documentId : DocumentId
  userId : UserId
  version : ℕ
  label : Option String
  sectionsSnapshot : List SectionData
  savedAt : ℕ
  deriving DecidableEq

/-- The validators of `DocumentVersionOdmEntity`. -/
def NewVersion.Valid (data : NewVersion) : Bool :=
  required data.documentId.text && required data.userId.text && data.sectionsSnapshot.all SectionData.Valid

structure DocumentVersion extends NewVersion where
  /-- A generated object id; they are numbered in the order of their generation. -/
  id : ℕ
  deriving DecidableEq

/-- The unique index on document and version. -/
def NewVersion.key (data : NewVersion) : DocumentId × ℕ := (data.documentId, data.version)

/-- The collection, newest first. -/
structure VersionCollection where
  docs : List DocumentVersion
  nodup_key : (docs.map (·.key)).Nodup
  id_eq : docs.map (·.id) = (List.range docs.length).reverse

namespace VersionCollection

variable (versions : VersionCollection)

/-- Store a version that violates no constraint. -/
def insert (data : NewVersion) (fresh : data.key ∉ versions.docs.map (·.key)) :
    VersionCollection where
  docs := { data with id := versions.docs.length } :: versions.docs
  nodup_key := List.nodup_cons.mpr ⟨fresh, versions.nodup_key⟩
  id_eq := calc
    _ = versions.docs.length :: (List.range versions.docs.length).reverse := by
      rw [List.map_cons, versions.id_eq]
    _ = (List.range versions.docs.length ++ [versions.docs.length]).reverse := by
      rw [List.reverse_concat]
    _ = _ := by rw [List.length_cons, List.range_succ]

def findById (id : ℕ) : Option DocumentVersion :=
  versions.docs.find? (·.id = id)

/-- The versions of a document. -/
def ofDocument (documentId : DocumentId) : List DocumentVersion :=
  versions.docs.filter (·.documentId = documentId)

/-- `findOne({ document_id }).sort({ version: -1 })`. -/
def maxVersion (documentId : DocumentId) : Option ℕ :=
  ((versions.ofDocument documentId).map (·.version)).max?

/-- Every id belongs to one version. -/
theorem findById_eq_some {id : ℕ} {version : DocumentVersion} :
    versions.findById id = some version ↔ version ∈ versions.docs ∧ version.id = id := by
  have hnodup : (versions.docs.map (·.id)).Nodup := by
    rw [versions.id_eq, List.nodup_reverse]
    exact List.nodup_range
  unfold findById
  constructor
  · intro h
    exact ⟨List.mem_of_find?_eq_some h, by simpa using List.find?_some h⟩
  · rintro ⟨hmem, rfl⟩
    cases hfound : versions.docs.find? (·.id = version.id) with
    | none => simpa using List.find?_eq_none.mp hfound version hmem
    | some other =>
      have hid : other.id = version.id := by simpa using List.find?_some hfound
      rw [List.inj_on_of_nodup_map hnodup (List.mem_of_find?_eq_some hfound) hmem hid]

end VersionCollection

end MemoFlowApi.Documents
