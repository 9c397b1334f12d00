import MemoFlowApi.JsonSchema
import MemoFlowApi.Planning.Job

/-!
# The Contract of Result Chunks

The context engine publishes result chunks under a JSON schema, and the consumer checks them by hand.
It checks the members that it reads, and only so far as it reads them.
-/

namespace MemoFlowApi.Planning

open JsonSchema

/-! ## The consumer -/

def allowedProviders : List String := ["trello", "notion", "github"]

/-- The phases that are allowed. -/
def phaseOf : String → Option ChunkPhase
  | "started" => some .started
  | "gathering" => some .gathering
  | "completed" => some .completed
  | "failed" => some .failed
  | _ => none

/-- Neither a scalar nor null; arrays are records too. -/
def isRecord : Json → Bool
  | .obj _ | .arr _ => true
  | _ => false

def asString : Json → Option String
  | .str text => some text
  | _ => none

def asNumber : Json → Option ℚ
  | .num value => some value
  | _ => none

/-- A member that is a string. -/
def stringAt (name : String) (value : Json) : Option String := (value.member? name).bind asString

/-- A member that is a number. -/
def numberAt (name : String) (value : Json) : Option ℚ := (value.member? name).bind asNumber

/-- A member that may be `undefined`. -/
def asOptional {α : Type} (read : Json → Option α) : Option Json → Option (Option α)
  | none => some none
  | some value => (read value).map some

/-- `null` unless a condition holds. -/
def require (condition : Bool) : Option Unit := if condition then some () else none

def parseData (raw : Json) : Option ChunkData := do
  let data ← raw.member? "data"
  require (isRecord data)
  let provider ← stringAt "provider" data
  require (allowedProviders.contains provider)
  let content ← stringAt "content" data
  let tokenEstimate ← asOptional asNumber (data.member? "token_estimate")
  return ⟨provider, content, tokenEstimate⟩

def parseStatus (raw : Json) : Option ChunkStatus := do
  let status ← raw.member? "status"
  require (isRecord status)
  let phase ← (stringAt "phase" status).bind phaseOf
  let message ← asOptional asString (status.member? "message")
  let errorCode ← asOptional asString (status.member? "error_code")
  return ⟨phase, message, errorCode⟩

def parseBody (raw : Json) (type : String) : Option ChunkBody :=
  if type = "data" then (parseData raw).map .data
  else if type = "status" then (parseStatus raw).map .status
  else none

def parseContextResultChunk (raw : Json) : Option ContextResultChunk := do
  require (isRecord raw)
  let version ← numberAt "schema_version" raw
  require (version = 1)
  let jobId ← stringAt "job_id" raw
  require (jobId.length ≠ 0)
  let userId ← stringAt "user_id" raw
  require (userId.length ≠ 0)
  let sequence ← numberAt "sequence" raw
  require (sequence.den = 1 ∧ 0 ≤ sequence)
  let type ← stringAt "type" raw
  let body ← parseBody raw type
  return ⟨jobId, userId, sequence.num.toNat, body⟩

/-! ## The contract -/

/-- `$defs.data`. -/
def dataSchema : Schema :=
  allOf [.type .object, .required ["provider", "content"], closed [
    ("provider", allOf [.type .string, enumOf ["trello", "notion", "github"]]),
    ("content", .type .string),
    ("token_estimate", allOf [.type .integer, .minimum 0])]]

/-- `$defs.status`. -/
def statusSchema : Schema :=
  allOf [.type .object, .required ["phase"], closed [
    ("phase", allOf [.type .string,
      enumOf ["started", "gathering", "completed", "failed"]]),
    ("message", .type .string),
    ("error_code", .type .string)]]

/-- The `if` of a type. -/
def hasTypeNamed (type : String) : Schema :=
  allOf [.property "type" (const (.str type)), .required ["type"]]

/-- `context-result.schema.json`. -/
def contextResultSchema : Schema :=
  allOf [.type .object,
    .required ["schema_version", "job_id", "user_id", "sequence", "type"],
    closed [
      ("schema_version", allOf [.type .integer, const (.num 1)]),
      ("job_id", allOf [.type .string, .minLength 1]),
      ("user_id", allOf [.type .string, .uuid]),
      ("sequence", allOf [.type .integer, .minimum 0]),
      ("type", allOf [.type .string, enumOf ["data", "status"]]),
      ("data", dataSchema),
      ("status", statusSchema)],
    .ifThen (hasTypeNamed "data") (.required ["data"]),
    .ifThen (hasTypeNamed "status") (.required ["status"])]

/-! ## What the consumer checks -/

/-- The structure of `data`. -/
def structuralData : Schema :=
  allOf [.type .object, .required ["provider", "content"],
    .property "provider" (enumOf ["trello", "notion", "github"]),
    .property "content" (.type .string), .property "token_estimate" (.type .number)]

/-- The structure of `status`. -/
def structuralStatus : Schema :=
  allOf [.type .object, .required ["phase"],
    .property "phase" (enumOf ["started", "gathering", "completed", "failed"]),
    .property "message" (.type .string), .property "error_code" (.type .string)]

/-- The structure of a chunk: the members that the consumer reads, and their types. -/
def structuralSchema : Schema :=
  allOf [.type .object,
    .required ["schema_version", "job_id", "user_id", "sequence", "type"],
    .property "schema_version" (const (.num 1)),
    .property "job_id" (allOf [.type .string, .minLength 1]),
    .property "user_id" (allOf [.type .string, .minLength 1]),
    .property "sequence" (allOf [.type .integer, .minimum 0]),
    .property "type" (enumOf ["data", "status"]),
    .ifThen (hasTypeNamed "data") (allOf [.required ["data"], .property "data" structuralData]),
    .ifThen (hasTypeNamed "status")
      (allOf [.required ["status"], .property "status" structuralStatus])]

/-- What the contract demands beyond: a user id that is a uuid, no other members, and that both
bodies, where present, keep the contract. -/
def strictSchema : Schema :=
  allOf [.property "user_id" .uuid,
    .noOthers ["schema_version", "job_id", "user_id", "sequence", "type", "data", "status"],
    .property "data" dataSchema, .property "status" statusSchema]

/-! ## Encoding -/

def encodeData (data : ChunkData) : Json :=
  .obj ([("provider", .str data.provider), ("content", .str data.content)] ++
    data.tokenEstimate.toList.map fun value ↦ ("token_estimate", .num value))

def phaseText : ChunkPhase → String
  | .started => "started"
  | .gathering => "gathering"
  | .completed => "completed"
  | .failed => "failed"

def encodeStatus (status : ChunkStatus) : Json :=
  .obj ([("phase", .str (phaseText status.phase))] ++
    status.message.toList.map (fun text ↦ ("message", .str text)) ++
    status.errorCode.toList.map fun text ↦ ("error_code", .str text))

/-- The members of a body, and the name of the one that is not used. -/
def encodeBody : ChunkBody → JsonObject × String
  | .data data => ([("type", .str "data"), ("data", encodeData data)], "status")
  | .status status => ([("type", .str "status"), ("status", encodeStatus status)], "data")

/-- A chunk in the words of the contract. -/
def encodeChunk (chunk : ContextResultChunk) : Json :=
  .obj ([("schema_version", .num 1), ("job_id", .str chunk.jobId), ("user_id", .str chunk.userId),
    ("sequence", .num chunk.sequence)] ++ (encodeBody chunk.body).1)

/-- The consumer accepts a value exactly if the contract does, and a value of the contract is what its
chunk encodes, up to the body that is not used. -/
def MeetsContract (raw : Json) : Prop :=
  ((parseContextResultChunk raw).isSome = true ↔ validates contextResultSchema raw = true) ∧
    (validates contextResultSchema raw = true → ∃ chunk, parseContextResultChunk raw = some chunk ∧
      Json.Equiv (encodeChunk chunk) (raw.without (encodeBody chunk.body).2))

/-! ## What the consumer reads -/

section Parse

variable {raw value : Json} {members : JsonObject} {name text : String}

@[simp]
theorem require_eq_some {condition : Bool} {done : Unit} :
    require condition = some done ↔ condition = true := by
  unfold require
  cases condition <;> simp

theorem member?_eq_some :
    raw.member? name = some value ↔
      ∃ members, raw = .obj members ∧ JsonObject.get? name members = some value := by
  cases raw <;> simp [Json.member?]

theorem asString_eq_some : asString value = some text ↔ value = .str text := by
  cases value <;> simp [asString]

theorem asNumber_eq_some {number : ℚ} : asNumber value = some number ↔ value = .num number := by
  cases value <;> simp [asNumber]

theorem stringAt_eq_some : stringAt name raw = some text ↔ raw.member? name = some (.str text) := by
  unfold stringAt
  cases raw.member? name with
  | none => simp
  | some value => exact asString_eq_some.trans Option.some_inj.symm

theorem numberAt_eq_some {number : ℚ} :
    numberAt name raw = some number ↔ raw.member? name = some (.num number) := by
  unfold numberAt
  cases raw.member? name with
  | none => simp
  | some value => exact asNumber_eq_some.trans Option.some_inj.symm

/-- A member that may be missing. -/
theorem asOptional_eq_some {α : Type} {read : Json → Option α} {write : α → Json}
    (h : ∀ value a, read value = some a ↔ value = write a) {member : Option Json} {a : Option α} :
    asOptional read member = some a ↔ member = a.map write := by
  cases member with
  | none => cases a <;> simp [asOptional]
  | some value => cases a <;> simp [asOptional, h]

theorem phaseOf_eq_some {phase : ChunkPhase} : phaseOf text = some phase ↔ text = phaseText phase := by
  unfold phaseOf
  split <;> cases phase <;> simp_all [phaseText]

/-- The members of a body of type `data`. -/
structure CarriesData (members : JsonObject) (data : ChunkData) : Prop where
  provider : JsonObject.get? "provider" members = some (.str data.provider)
  allowed : data.provider ∈ allowedProviders
  content : JsonObject.get? "content" members = some (.str data.content)
  tokenEstimate : JsonObject.get? "token_estimate" members = data.tokenEstimate.map .num

/-- The members of a body of type `status`. -/
structure CarriesStatus (members : JsonObject) (status : ChunkStatus) : Prop where
  phase : JsonObject.get? "phase" members = some (.str (phaseText status.phase))
  message : JsonObject.get? "message" members = status.message.map .str
  errorCode : JsonObject.get? "error_code" members = status.errorCode.map .str

/-- The body of a chunk, under its type. -/
def CarriesBody (members : JsonObject) : ChunkBody → Prop
  | .data data => JsonObject.get? "type" members = some (.str "data") ∧
      ∃ body, JsonObject.get? "data" members = some (.obj body) ∧ CarriesData body data
  | .status status => JsonObject.get? "type" members = some (.str "status") ∧
      ∃ body, JsonObject.get? "status" members = some (.obj body) ∧ CarriesStatus body status

/-- The members of a chunk. -/
structure Carries (members : JsonObject) (chunk : ContextResultChunk) : Prop where
  version : JsonObject.get? "schema_version" members = some (.num 1)
  jobId : JsonObject.get? "job_id" members = some (.str chunk.jobId)
  jobId_ne : chunk.jobId.length ≠ 0
  userId : JsonObject.get? "user_id" members = some (.str chunk.userId)
  userId_ne : chunk.userId.length ≠ 0
  sequence : JsonObject.get? "sequence" members = some (.num chunk.sequence)
  body : CarriesBody members chunk.body

theorem parseData_eq_some {data : ChunkData} :
    parseData (.obj members) = some data ↔
      ∃ body, JsonObject.get? "data" members = some (.obj body) ∧ CarriesData body data := by
  have hoptional : ∀ value number, asNumber value = some number ↔ value = .num number :=
    fun _ _ ↦ asNumber_eq_some
  unfold parseData
  simp only [Option.bind_eq_bind, Option.bind_eq_some_iff, require_eq_some, stringAt_eq_some,
    asOptional_eq_some hoptional]
  constructor
  · rintro ⟨body, hbody, -, -, provider, hprovider, -, hallowed, content, hcontent, tokenEstimate,
      hestimate, ⟨⟩⟩
    obtain ⟨fields, rfl, hget⟩ := member?_eq_some.mp hprovider
    exact ⟨fields, hbody, hget, by simpa using hallowed, hcontent, hestimate⟩
  · rintro ⟨body, hbody, hcarries⟩
    exact ⟨_, hbody, (), rfl, data.provider, hcarries.provider, (), by simpa using hcarries.allowed,
      data.content, hcarries.content, data.tokenEstimate, hcarries.tokenEstimate, rfl⟩

theorem parseStatus_eq_some {status : ChunkStatus} :
    parseStatus (.obj members) = some status ↔
      ∃ body, JsonObject.get? "status" members = some (.obj body) ∧ CarriesStatus body status := by
  have hoptional : ∀ value text, asString value = some text ↔ value = .str text :=
    fun _ _ ↦ asString_eq_some
  unfold parseStatus
  simp only [Option.bind_eq_bind, Option.bind_eq_some_iff, require_eq_some, stringAt_eq_some,
    asOptional_eq_some hoptional, phaseOf_eq_some]
  constructor
  · rintro ⟨body, hbody, -, -, phase, ⟨text, hphase, rfl⟩, message, hmessage, errorCode, hcode, ⟨⟩⟩
    obtain ⟨fields, rfl, hget⟩ := member?_eq_some.mp hphase
    exact ⟨fields, hbody, hget, hmessage, hcode⟩
  · rintro ⟨body, hbody, hcarries⟩
    exact ⟨_, hbody, (), rfl, status.phase, ⟨_, hcarries.phase, rfl⟩, status.message,
      hcarries.message, status.errorCode, hcarries.errorCode, rfl⟩

theorem parseBody_eq_some {body : ChunkBody} :
    (∃ type, JsonObject.get? "type" members = some (.str type) ∧
      parseBody (.obj members) type = some body) ↔ CarriesBody members body := by
  unfold parseBody
  constructor
  · rintro ⟨type, htype, hbody⟩
    split at hbody
    · next hdata =>
      subst hdata
      obtain ⟨data, hparse, rfl⟩ := Option.map_eq_some_iff.mp hbody
      exact ⟨htype, parseData_eq_some.mp hparse⟩
    · split at hbody
      · next hstatus =>
        subst hstatus
        obtain ⟨status, hparse, rfl⟩ := Option.map_eq_some_iff.mp hbody
        exact ⟨htype, parseStatus_eq_some.mp hparse⟩
      · cases hbody
  · intro hcarries
    cases body with
    | data data =>
      refine ⟨"data", hcarries.1, ?_⟩
      rw [if_pos rfl, parseData_eq_some.mpr hcarries.2]
      rfl
    | status status =>
      refine ⟨"status", hcarries.1, ?_⟩
      rw [if_neg (by decide), if_pos rfl, parseStatus_eq_some.mpr hcarries.2]
      rfl

/-- A rational that is a natural number. -/
theorem eq_natCast_iff {number : ℚ} {n : ℕ} :
    (number.den = 1 ∧ 0 ≤ number) ∧ number.num.toNat = n ↔ number = n := by
  constructor
  · rintro ⟨⟨hden, hle⟩, rfl⟩
    have hnum : ((number.num.toNat : ℤ) : ℚ) = number := by
      rw [Int.toNat_of_nonneg (Rat.num_nonneg.mpr hle)]
      exact Rat.coe_int_num_of_den_eq_one hden
    exact hnum.symm
  · rintro rfl
    exact ⟨⟨Rat.den_natCast n, Rat.natCast_nonneg⟩, by rw [Rat.num_natCast, Int.toNat_natCast]⟩

/-- The consumer reads a chunk off its members. -/
theorem parseContextResultChunk_eq_some {chunk : ContextResultChunk} :
    parseContextResultChunk raw = some chunk ↔ ∃ members, raw = .obj members ∧ Carries members chunk := by
  unfold parseContextResultChunk
  simp only [Option.bind_eq_bind, Option.bind_eq_some_iff, require_eq_some, stringAt_eq_some,
    numberAt_eq_some, decide_eq_true_eq]
  constructor
  · rintro ⟨-, -, version, hversion, -, rfl, jobId, hjob, -, hjob_ne, userId, huser, -, huser_ne,
      sequence, hsequence, -, hnat, type, htype, body, hbody, ⟨⟩⟩
    obtain ⟨members, rfl, hget⟩ := member?_eq_some.mp hversion
    refine ⟨members, rfl, hget, hjob, hjob_ne, huser, huser_ne, ?_, parseBody_eq_some.mp
      ⟨type, htype, hbody⟩⟩
    rw [← eq_natCast_iff.mp ⟨hnat, rfl⟩]
    exact hsequence
  · rintro ⟨members, rfl, hcarries⟩
    obtain ⟨type, htype, hbody⟩ := parseBody_eq_some.mpr hcarries.body
    obtain ⟨hnat, htoNat⟩ := eq_natCast_iff.mpr (rfl : (chunk.sequence : ℚ) = chunk.sequence)
    refine ⟨(), rfl, 1, hcarries.version, (), rfl, chunk.jobId, hcarries.jobId, (), hcarries.jobId_ne,
      chunk.userId, hcarries.userId, (), hcarries.userId_ne, chunk.sequence, hcarries.sequence, (),
      hnat, type, htype, chunk.body, hbody, ?_⟩
    rw [htoNat]
    rfl

end Parse

/-! ## What the consumer accepts -/

section Accepts

variable {raw : Json} {members : JsonObject}

/-- A body of type `data` has its structure. -/
theorem validates_structuralData :
    validates structuralData (.obj members) = true ↔ ∃ data, CarriesData members data := by
  unfold structuralData
  simp only [validates_allOf, List.forall_mem_cons, validates_property, validates_enumOf,
    validates_string, validates_number, validates_required, Json.member?]
  constructor
  · rintro ⟨-, ⟨⟨_, hprovider⟩, ⟨_, hcontent⟩, -⟩, hallowed, hstring, hnumber, -⟩
    obtain ⟨provider, hmem, rfl⟩ := hallowed _ hprovider
    obtain ⟨content, rfl⟩ := hstring _ hcontent
    cases hestimate : JsonObject.get? "token_estimate" members with
    | none => exact ⟨⟨provider, content, none⟩, hprovider, hmem, hcontent, hestimate⟩
    | some value =>
      obtain ⟨number, rfl⟩ := hnumber _ hestimate
      exact ⟨⟨provider, content, some number⟩, hprovider, hmem, hcontent, hestimate⟩
  · rintro ⟨data, hcarries⟩
    refine ⟨validates_object.mpr ⟨members, rfl⟩, ⟨⟨_, hcarries.provider⟩, ⟨_, hcarries.content⟩,
      fun _ h ↦ (List.not_mem_nil h).elim⟩, fun child hchild ↦ ?_, fun child hchild ↦ ?_,
      fun child hchild ↦ ?_, fun _ h ↦ (List.not_mem_nil h).elim⟩
    · rw [hcarries.provider] at hchild
      cases hchild
      exact ⟨_, hcarries.allowed, rfl⟩
    · rw [hcarries.content] at hchild
      cases hchild
      exact ⟨_, rfl⟩
    · rw [hcarries.tokenEstimate] at hchild
      obtain ⟨number, -, rfl⟩ := Option.map_eq_some_iff.mp hchild
      exact ⟨_, rfl⟩

theorem mem_phases {text : String} :
    text ∈ ["started", "gathering", "completed", "failed"] ↔ ∃ phase, text = phaseText phase := by
  constructor
  · simp only [List.mem_cons, List.not_mem_nil, or_false]
    rintro (rfl | rfl | rfl | rfl)
    · exact ⟨.started, rfl⟩
    · exact ⟨.gathering, rfl⟩
    · exact ⟨.completed, rfl⟩
    · exact ⟨.failed, rfl⟩
  · rintro ⟨phase, rfl⟩
    cases phase <;> decide

/-- An optional member that is a string where it is present. -/
theorem exists_optional {name : String}
    (h : ∀ child, JsonObject.get? name members = some child → ∃ text, child = .str text) :
    ∃ text : Option String, JsonObject.get? name members = text.map .str := by
  cases hchild : JsonObject.get? name members with
  | none => exact ⟨none, rfl⟩
  | some child =>
    obtain ⟨text, rfl⟩ := h child hchild
    exact ⟨some text, rfl⟩

/-- A body of type `status` has its structure. -/
theorem validates_structuralStatus :
    validates structuralStatus (.obj members) = true ↔ ∃ status, CarriesStatus members status := by
  unfold structuralStatus
  simp only [validates_allOf, List.forall_mem_cons, validates_property, validates_enumOf,
    validates_string, validates_required, Json.member?, mem_phases]
  constructor
  · rintro ⟨-, ⟨⟨_, hphase⟩, -⟩, hallowed, hmessage, hcode, -⟩
    obtain ⟨_, ⟨phase, rfl⟩, rfl⟩ := hallowed _ hphase
    obtain ⟨message, hmessage⟩ := exists_optional hmessage
    obtain ⟨errorCode, hcode⟩ := exists_optional hcode
    exact ⟨⟨phase, message, errorCode⟩, hphase, hmessage, hcode⟩
  · rintro ⟨status, hcarries⟩
    refine ⟨validates_object.mpr ⟨members, rfl⟩, ⟨⟨_, hcarries.phase⟩,
      fun _ h ↦ (List.not_mem_nil h).elim⟩, fun child hchild ↦ ?_, fun child hchild ↦ ?_,
      fun child hchild ↦ ?_, fun _ h ↦ (List.not_mem_nil h).elim⟩
    · rw [hcarries.phase] at hchild
      cases hchild
      exact ⟨_, ⟨_, rfl⟩, rfl⟩
    · rw [hcarries.message] at hchild
      obtain ⟨text, -, rfl⟩ := Option.map_eq_some_iff.mp hchild
      exact ⟨_, rfl⟩
    · rw [hcarries.errorCode] at hchild
      obtain ⟨text, -, rfl⟩ := Option.map_eq_some_iff.mp hchild
      exact ⟨_, rfl⟩

/-- The `if` of a type holds of objects of that type. -/
theorem validates_hasTypeNamed {type : String} :
    validates (hasTypeNamed type) (.obj members) = true ↔
      JsonObject.get? "type" members = some (.str type) := by
  unfold hasTypeNamed
  simp only [validates_allOf, List.forall_mem_cons, validates_property, validates_const_str,
    validates_required, Json.member?]
  constructor
  · rintro ⟨hconst, ⟨⟨child, hchild⟩, -⟩, -⟩
    rw [hchild, hconst child hchild]
  · intro htype
    refine ⟨fun child hchild ↦ ?_, ⟨⟨_, htype⟩, fun _ h ↦ (List.not_mem_nil h).elim⟩,
      fun _ h ↦ (List.not_mem_nil h).elim⟩
    rw [htype] at hchild
    exact (Option.some.inj hchild).symm

/-- A body under its name. -/
theorem validates_body {name : String} {schema : Schema} (hobject : ∀ value,
      validates schema value = true → ∃ members, value = .obj members) :
    validates (allOf [.required [name], .property name schema]) (.obj members) = true ↔
      ∃ body, JsonObject.get? name members = some (.obj body) ∧ validates schema (.obj body) = true := by
  simp only [validates_allOf, List.forall_mem_cons, validates_property, validates_required,
    Json.member?]
  constructor
  · rintro ⟨⟨⟨child, hchild⟩, -⟩, hvalid, -⟩
    have hvalid := hvalid child hchild
    obtain ⟨body, rfl⟩ := hobject child hvalid
    exact ⟨body, hchild, hvalid⟩
  · rintro ⟨body, hbody, hvalid⟩
    refine ⟨⟨⟨_, hbody⟩, fun _ h ↦ (List.not_mem_nil h).elim⟩, fun child hchild ↦ ?_,
      fun _ h ↦ (List.not_mem_nil h).elim⟩
    rw [hbody] at hchild
    cases hchild
    exact hvalid

theorem object_of_structuralData {value : Json} (h : validates structuralData value = true) :
    ∃ members, value = .obj members :=
  validates_object.mp (validates_allOf.mp h _ List.mem_cons_self)

theorem object_of_structuralStatus {value : Json} (h : validates structuralStatus value = true) :
    ∃ members, value = .obj members :=
  validates_object.mp (validates_allOf.mp h _ List.mem_cons_self)

/-- The values that the consumer can read are those with the structure of a chunk. -/
theorem validates_structuralSchema :
    validates structuralSchema raw = true ↔
      ∃ chunk members, raw = .obj members ∧ Carries members chunk := by
  unfold structuralSchema
  simp only [validates_allOf, List.forall_mem_cons, validates_object]
  constructor
  · rintro ⟨⟨members, rfl⟩, hrequired, hversion, hjob, huser, hsequence, htype, hdata, hstatus, -⟩
    simp only [validates_required, List.forall_mem_cons] at hrequired
    simp only [validates_property, validates_allOf, List.forall_mem_cons, validates_const_num,
      validates_string, validates_integer, validates_enumOf, Json.member?]
      at hversion hjob huser hsequence htype
    rw [validates_ifThen, validates_hasTypeNamed,
      validates_body fun _ ↦ object_of_structuralData] at hdata
    rw [validates_ifThen, validates_hasTypeNamed,
      validates_body fun _ ↦ object_of_structuralStatus] at hstatus
    obtain ⟨⟨_, hgetVersion⟩, ⟨_, hgetJob⟩, ⟨_, hgetUser⟩, ⟨_, hgetSequence⟩, ⟨_, hgetType⟩, -⟩ :=
      hrequired
    obtain ⟨⟨jobId, rfl⟩, hjob_ne, -⟩ := hjob _ hgetJob
    obtain ⟨⟨userId, rfl⟩, huser_ne, -⟩ := huser _ hgetUser
    obtain ⟨⟨number, rfl, hden⟩, hle, -⟩ := hsequence _ hgetSequence
    rw [validates_minLength] at hjob_ne huser_ne
    rw [validates_minimum] at hle
    rw [hversion _ hgetVersion] at hgetVersion
    rw [eq_natCast_iff.mp ⟨⟨hden, hle⟩, rfl⟩] at hgetSequence
    have hbody : ∃ body, CarriesBody members body := by
      obtain ⟨type, hmem, rfl⟩ := htype _ hgetType
      simp only [List.mem_cons, List.not_mem_nil, or_false] at hmem
      rcases hmem with rfl | rfl
      · obtain ⟨body, hbody, hvalid⟩ := hdata hgetType
        obtain ⟨data, hcarries⟩ := validates_structuralData.mp hvalid
        exact ⟨.data data, hgetType, body, hbody, hcarries⟩
      · obtain ⟨body, hbody, hvalid⟩ := hstatus hgetType
        obtain ⟨status, hcarries⟩ := validates_structuralStatus.mp hvalid
        exact ⟨.status status, hgetType, body, hbody, hcarries⟩
    obtain ⟨body, hbody⟩ := hbody
    exact ⟨⟨jobId, userId, number.num.toNat, body⟩, members, rfl, hgetVersion, hgetJob,
      Nat.one_le_iff_ne_zero.mp hjob_ne, hgetUser, Nat.one_le_iff_ne_zero.mp huser_ne,
      hgetSequence, hbody⟩
  · rintro ⟨chunk, members, rfl, hcarries⟩
    obtain ⟨hsequence, -⟩ := eq_natCast_iff.mpr (rfl : (chunk.sequence : ℚ) = chunk.sequence)
    have htype : ∃ type ∈ ["data", "status"],
        JsonObject.get? "type" members = some (.str type) := by
      cases hbody : chunk.body with
      | data data =>
        have hcarried := hcarries.body
        rw [hbody] at hcarried
        exact ⟨"data", by decide, hcarried.1⟩
      | status status =>
        have hcarried := hcarries.body
        rw [hbody] at hcarried
        exact ⟨"status", by decide, hcarried.1⟩
    obtain ⟨type, hmem, htype⟩ := htype
    rw [validates_property_of_get? hcarries.version, validates_property_of_get? hcarries.jobId,
      validates_property_of_get? hcarries.userId, validates_property_of_get? hcarries.sequence,
      validates_property_of_get? htype]
    simp only [validates_required, validates_ifThen, validates_hasTypeNamed,
      validates_body fun _ ↦ object_of_structuralData,
      validates_body fun _ ↦ object_of_structuralStatus, validates_structuralData,
      validates_structuralStatus, validates_allOf, List.forall_mem_cons]
    refine ⟨⟨members, rfl⟩, ⟨⟨_, hcarries.version⟩, ⟨_, hcarries.jobId⟩, ⟨_, hcarries.userId⟩,
      ⟨_, hcarries.sequence⟩, ⟨_, htype⟩, fun _ h ↦ (List.not_mem_nil h).elim⟩,
      validates_const_num.mpr rfl,
      ⟨validates_string.mpr ⟨_, rfl⟩,
        validates_minLength.mpr (Nat.one_le_iff_ne_zero.mpr hcarries.jobId_ne),
        fun _ h ↦ (List.not_mem_nil h).elim⟩,
      ⟨validates_string.mpr ⟨_, rfl⟩,
        validates_minLength.mpr (Nat.one_le_iff_ne_zero.mpr hcarries.userId_ne),
        fun _ h ↦ (List.not_mem_nil h).elim⟩,
      ⟨validates_integer.mpr ⟨_, rfl, hsequence.1⟩, validates_minimum.mpr hsequence.2,
        fun _ h ↦ (List.not_mem_nil h).elim⟩,
      validates_enumOf.mpr ⟨type, hmem, rfl⟩, fun hdata ↦ ?_, fun hstatus ↦ ?_,
      fun _ h ↦ (List.not_mem_nil h).elim⟩
    · have hcarried := hcarries.body
      cases hbody : chunk.body with
      | data data =>
        rw [hbody] at hcarried
        obtain ⟨body, hget, hdata⟩ := hcarried.2
        exact ⟨body, hget, data, hdata⟩
      | status status =>
        rw [hbody] at hcarried
        rw [hcarried.1] at hdata
        simp at hdata
    · have hcarried := hcarries.body
      cases hbody : chunk.body with
      | data data =>
        rw [hbody] at hcarried
        rw [hcarried.1] at hstatus
        simp at hstatus
      | status status =>
        rw [hbody] at hcarried
        obtain ⟨body, hget, hstatus⟩ := hcarried.2
        exact ⟨body, hget, status, hstatus⟩

/-- The consumer accepts what has the structure of a chunk. -/
theorem isSome_parseContextResultChunk :
    (parseContextResultChunk raw).isSome = true ↔ validates structuralSchema raw = true := by
  rw [Option.isSome_iff_exists, validates_structuralSchema]
  exact exists_congr fun chunk ↦ parseContextResultChunk_eq_some

/-- A body of the contract has its structure. -/
theorem structuralData_of_dataSchema {value : Json} (h : validates dataSchema value = true) :
    validates structuralData value = true := by
  unfold dataSchema at h
  simp only [validates_allOf, List.forall_mem_cons, validates_object] at h
  obtain ⟨⟨members, rfl⟩, hrequired, hclosed, -⟩ := h
  rw [validates_closed] at hclosed
  simp only [List.forall_mem_cons, validates_allOf] at hclosed
  obtain ⟨⟨hprovider, hcontent, hestimate, -⟩, -⟩ := hclosed
  unfold structuralData
  simp only [validates_allOf, List.forall_mem_cons, validates_object, validates_property,
    Json.member?]
  refine ⟨⟨members, rfl⟩, hrequired, fun child hchild ↦ (hprovider child hchild).2.1, hcontent,
    fun child hchild ↦ ?_, fun _ h ↦ (List.not_mem_nil h).elim⟩
  obtain ⟨number, rfl, -⟩ := validates_integer.mp (hestimate child hchild).1
  exact validates_number.mpr ⟨number, rfl⟩

theorem structuralStatus_of_statusSchema {value : Json} (h : validates statusSchema value = true) :
    validates structuralStatus value = true := by
  unfold statusSchema at h
  simp only [validates_allOf, List.forall_mem_cons, validates_object] at h
  obtain ⟨⟨members, rfl⟩, hrequired, hclosed, -⟩ := h
  rw [validates_closed] at hclosed
  simp only [List.forall_mem_cons, validates_allOf] at hclosed
  obtain ⟨⟨hphase, hmessage, hcode, -⟩, -⟩ := hclosed
  unfold structuralStatus
  simp only [validates_allOf, List.forall_mem_cons, validates_object, validates_property,
    Json.member?]
  exact ⟨⟨members, rfl⟩, hrequired, fun child hchild ↦ (hphase child hchild).2.1, hmessage, hcode,
    fun _ h ↦ (List.not_mem_nil h).elim⟩

/-- The contract is the structure with what the consumer does not check. -/
theorem validates_contextResultSchema :
    validates contextResultSchema raw = true ↔
      validates structuralSchema raw = true ∧ validates strictSchema raw = true := by
  unfold contextResultSchema structuralSchema strictSchema
  simp only [validates_allOf, List.forall_mem_cons, validates_object, validates_ifThen]
  constructor
  · rintro ⟨⟨members, rfl⟩, hrequired, hclosed, hdata, hstatus, -⟩
    rw [validates_closed] at hclosed
    obtain ⟨hproperties, hothers⟩ := hclosed
    simp only [List.forall_mem_cons, validates_allOf] at hproperties
    obtain ⟨hversion, hjob, huser, hsequence, htype, hdataBody, hstatusBody, -⟩ := hproperties
    simp only [validates_property, validates_allOf, List.forall_mem_cons, Json.member?]
    refine ⟨⟨⟨members, rfl⟩, hrequired, fun child hchild ↦ (hversion child hchild).2.1, hjob,
      fun child hchild ↦ ?_, hsequence, fun child hchild ↦ (htype child hchild).2.1,
      fun hif ↦ ⟨hdata hif, fun child hchild ↦
        structuralData_of_dataSchema (hdataBody child hchild), fun _ h ↦ (List.not_mem_nil h).elim⟩,
      fun hif ↦ ⟨hstatus hif, fun child hchild ↦
        structuralStatus_of_statusSchema (hstatusBody child hchild),
        fun _ h ↦ (List.not_mem_nil h).elim⟩, fun _ h ↦ (List.not_mem_nil h).elim⟩,
      fun child hchild ↦ (huser child hchild).2.1, validates_noOthers.mpr hothers, hdataBody,
      hstatusBody, fun _ h ↦ (List.not_mem_nil h).elim⟩
    obtain ⟨hstring, huuid, -⟩ := huser child hchild
    obtain ⟨text, rfl⟩ := validates_string.mp hstring
    exact ⟨hstring, validates_minLength.mpr (length_of_isUuid huuid),
      fun _ h ↦ (List.not_mem_nil h).elim⟩
  · rintro ⟨⟨⟨members, rfl⟩, hrequired, hversion, hjob, huser, hsequence, htype, hdata, hstatus, -⟩,
      huuid, hothers, hdataBody, hstatusBody, -⟩
    simp only [validates_property, validates_allOf, List.forall_mem_cons, Json.member?]
      at hversion hjob huser hsequence htype huuid hdata hstatus hdataBody hstatusBody
    rw [validates_closed]
    simp only [List.forall_mem_cons, validates_allOf]
    refine ⟨⟨members, rfl⟩, hrequired, ⟨⟨fun child hchild ↦ ?_, hjob, fun child hchild ↦ ?_,
      hsequence, fun child hchild ↦ ?_, hdataBody, hstatusBody, fun _ h ↦ (List.not_mem_nil h).elim⟩,
      validates_noOthers.mp hothers⟩, fun hif ↦ (hdata hif).1, fun hif ↦ (hstatus hif).1,
      fun _ h ↦ (List.not_mem_nil h).elim⟩
    · have hconst := hversion child hchild
      rw [validates_const_num] at hconst
      subst hconst
      exact ⟨by decide, hversion _ hchild, fun _ h ↦ (List.not_mem_nil h).elim⟩
    · exact ⟨(huser child hchild).1, huuid child hchild, fun _ h ↦ (List.not_mem_nil h).elim⟩
    · obtain ⟨text, -, rfl⟩ := validates_enumOf.mp (htype child hchild)
      exact ⟨validates_string.mpr ⟨text, rfl⟩, htype _ hchild, fun _ h ↦ (List.not_mem_nil h).elim⟩

/-! ## Encoding what was read -/

/-- An optional member comes last. -/
theorem get?_append_toList {α : Type} {name : String} {write : α → Json} {value : Option α}
    {rest : JsonObject} (key : String) (h : ∀ member ∈ rest, member.1 ≠ name) :
    JsonObject.get? key (rest ++ value.toList.map fun a ↦ (name, write a)) =
      if key = name then value.map write else JsonObject.get? key rest := by
  induction rest with
  | nil =>
    cases value with
    | none => simp
    | some a =>
      change JsonObject.get? key ((name, write a) :: []) = _
      rw [JsonObject.get?_cons]
      by_cases hname : name = key
      · rw [if_pos hname, if_pos hname.symm]
        rfl
      · rw [if_neg hname, if_neg fun heq ↦ hname heq.symm]
  | cons member rest ih =>
    have hne := h member List.mem_cons_self
    have ih := ih fun other hother ↦ h other (List.mem_cons_of_mem _ hother)
    obtain ⟨first, child⟩ := member
    rw [List.cons_append, JsonObject.get?_cons, JsonObject.get?_cons, ih]
    by_cases hfirst : first = key
    · have hkey : key ≠ name := hfirst ▸ hne
      rw [if_pos hfirst, if_neg hkey, if_pos hfirst]
    · rw [if_neg hfirst, if_neg hfirst]

/-- A body of the contract is what was read of it. -/
theorem equiv_encodeData {data : ChunkData} (h : CarriesData members data)
    (valid : validates dataSchema (.obj members) = true) :
    Json.Equiv (encodeData data) (.obj members) := by
  unfold dataSchema at valid
  simp only [validates_allOf, List.forall_mem_cons] at valid
  have hothers := (validates_closed.mp valid.2.2.1).2
  refine Json.Equiv.of_get? fun key ↦ .inl ?_
  rw [get?_append_toList key (by simp), JsonObject.get?_cons, JsonObject.get?_cons]
  by_cases hestimate : key = "token_estimate"
  · rw [if_pos hestimate, hestimate, h.tokenEstimate]
  by_cases hprovider : key = "provider"
  · subst hprovider
    rw [h.provider]
    simp
  by_cases hcontent : key = "content"
  · subst hcontent
    rw [h.content]
    simp
  rw [if_neg hestimate, if_neg (Ne.symm hprovider), if_neg (Ne.symm hcontent)]
  refine (JsonObject.get?_eq_none fun member hmember heq ↦ ?_).symm
  have hmem := hothers member hmember
  rw [heq] at hmem
  simp [hestimate, hprovider, hcontent] at hmem

theorem equiv_encodeStatus {status : ChunkStatus} (h : CarriesStatus members status)
    (valid : validates statusSchema (.obj members) = true) :
    Json.Equiv (encodeStatus status) (.obj members) := by
  unfold statusSchema at valid
  simp only [validates_allOf, List.forall_mem_cons] at valid
  have hothers := (validates_closed.mp valid.2.2.1).2
  refine Json.Equiv.of_get? fun key ↦ .inl ?_
  have hmessageLast : ∀ member ∈ [("phase", Json.str (phaseText status.phase))] ++
      status.message.toList.map (fun text ↦ ("message", Json.str text)), member.1 ≠ "error_code" := by
    intro member hmember
    rcases List.mem_append.mp hmember with hphase | hmessage
    · rw [List.mem_singleton.mp hphase]
      simp
    · obtain ⟨text, -, rfl⟩ := List.mem_map.mp hmessage
      simp
  rw [get?_append_toList key hmessageLast, get?_append_toList key (by simp), JsonObject.get?_cons]
  by_cases hcode : key = "error_code"
  · rw [if_pos hcode, hcode, h.errorCode]
  by_cases hmessage : key = "message"
  · rw [if_neg hcode, if_pos hmessage, hmessage, h.message]
  by_cases hphase : key = "phase"
  · subst hphase
    rw [h.phase]
    simp
  rw [if_neg hcode, if_neg hmessage, if_neg (Ne.symm hphase)]
  refine (JsonObject.get?_eq_none fun member hmember heq ↦ ?_).symm
  have hmem := hothers member hmember
  rw [heq] at hmem
  simp [hcode, hmessage, hphase] at hmem

/-- The members of a chunk, without the body that is not used. -/
theorem equiv_members {chunk : ContextResultChunk} {type unused : String} {encoded body : Json}
    (h : Carries members chunk) (htype : JsonObject.get? "type" members = some (.str type))
    (hbody : JsonObject.get? type members = some body) (equiv : Json.Equiv encoded body)
    (names : type = "data" ∧ unused = "status" ∨ type = "status" ∧ unused = "data")
    (others : ∀ member ∈ members, member.1 ∈
      ["schema_version", "job_id", "user_id", "sequence", "type", "data", "status"]) :
    Json.Equiv (.obj [("schema_version", .num 1), ("job_id", .str chunk.jobId),
        ("user_id", .str chunk.userId), ("sequence", .num chunk.sequence), ("type", .str type),
        (type, encoded)]) (.obj (JsonObject.erase unused members)) := by
  refine Json.Equiv.of_get? fun key ↦ ?_
  rw [JsonObject.get?_erase]
  by_cases hunused : key = unused
  · rw [if_pos hunused, hunused]
    refine .inl (JsonObject.get?_eq_none fun member hmember ↦ ?_)
    rcases names with ⟨rfl, rfl⟩ | ⟨rfl, rfl⟩ <;> revert member <;> simp
  rw [if_neg hunused]
  by_cases hkey : key = type
  · subst hkey
    refine .inr ⟨encoded, body, ?_, hbody, equiv⟩
    rcases names with ⟨rfl, rfl⟩ | ⟨rfl, rfl⟩ <;> simp [JsonObject.get?_cons]
  refine .inl ?_
  by_cases hversion : key = "schema_version"
  · subst hversion
    rw [h.version]
    simp [JsonObject.get?_cons]
  by_cases hjob : key = "job_id"
  · subst hjob
    rw [h.jobId]
    simp [JsonObject.get?_cons]
  by_cases huser : key = "user_id"
  · subst huser
    rw [h.userId]
    simp [JsonObject.get?_cons]
  by_cases hsequence : key = "sequence"
  · subst hsequence
    rw [h.sequence]
    simp [JsonObject.get?_cons]
  by_cases hname : key = "type"
  · subst hname
    rw [htype]
    simp [JsonObject.get?_cons]
  have hmembers : JsonObject.get? key members = none := by
    refine JsonObject.get?_eq_none fun member hmember heq ↦ ?_
    have hmem := others member hmember
    rw [heq] at hmem
    rcases names with ⟨rfl, rfl⟩ | ⟨rfl, rfl⟩ <;>
      simp [hversion, hjob, huser, hsequence, hname, hkey, hunused] at hmem
  rw [hmembers]
  simp [JsonObject.get?_cons, Ne.symm hversion, Ne.symm hjob, Ne.symm huser, Ne.symm hsequence,
    Ne.symm hname, Ne.symm hkey]

/-- A value of the contract is what its chunk encodes. -/
theorem equiv_encodeChunk {chunk : ContextResultChunk} (h : Carries members chunk)
    (strict : validates strictSchema (.obj members) = true) :
    Json.Equiv (encodeChunk chunk) ((Json.obj members).without (encodeBody chunk.body).2) := by
  unfold strictSchema at strict
  simp only [validates_allOf, List.forall_mem_cons, validates_property, Json.member?] at strict
  obtain ⟨-, hothers, hdata, hstatus, -⟩ := strict
  rw [validates_noOthers] at hothers
  have hcarried := h.body
  unfold encodeChunk
  cases hbody : chunk.body with
  | data data =>
    rw [hbody] at hcarried
    obtain ⟨htype, body, hget, hcarries⟩ := hcarried
    exact equiv_members h htype hget (equiv_encodeData hcarries (hdata _ hget)) (.inl ⟨rfl, rfl⟩)
      hothers
  | status status =>
    rw [hbody] at hcarried
    obtain ⟨htype, body, hget, hcarries⟩ := hcarried
    exact equiv_members h htype hget (equiv_encodeStatus hcarries (hstatus _ hget)) (.inr ⟨rfl, rfl⟩)
      hothers

end Accepts

/-- The consumer keeps the contract for a value exactly if the value lacks the structure of a chunk
or keeps also what the consumer does not check. -/
theorem meetsContract_iff (raw : Json) :
    MeetsContract raw ↔
      (validates structuralSchema raw = true → validates strictSchema raw = true) := by
  unfold MeetsContract
  rw [isSome_parseContextResultChunk, validates_contextResultSchema]
  constructor
  · rintro ⟨hiff, -⟩ hstructural
    exact (hiff.mp hstructural).2
  · intro hstrict
    refine ⟨⟨fun hstructural ↦ ⟨hstructural, hstrict hstructural⟩, And.left⟩, ?_⟩
    rintro ⟨hstructural, hstrict⟩
    obtain ⟨chunk, members, rfl, hcarries⟩ := validates_structuralSchema.mp hstructural
    exact ⟨chunk, parseContextResultChunk_eq_some.mpr ⟨members, rfl, hcarries⟩,
      equiv_encodeChunk hcarries hstrict⟩

/-- A chunk with a token estimate below zero. -/
def negativeEstimate : Json :=
  .obj [("schema_version", .num 1), ("job_id", .str "job"),
    ("user_id", .str "6f9619ff-8b86-4011-b42d-00c04fc964ff"), ("sequence", .num 0),
    ("type", .str "data"), ("data", .obj [("provider", .str "trello"), ("content", .str "{}"),
      ("token_estimate", .num (-3))])]

theorem not_meetsContract_negativeEstimate : ¬MeetsContract negativeEstimate := by
  intro h
  have haccepted : (parseContextResultChunk negativeEstimate).isSome = true := by decide +kernel
  have hinvalid : validates contextResultSchema negativeEstimate = false := by decide +kernel
  rw [h.1.mp haccepted] at hinvalid
  cases hinvalid

end MemoFlowApi.Planning
