import MemoFlowApi.Leads.Stats
import MemoFlowApi.Sql.Select

/-!
# Pages of Leads

The leads that pass a filter are joined from three tables, put in one strict order and cut into pages.
-/

namespace MemoFlowApi.Leads

open Calendar

/-! ## Tables -/

inductive UserRole where
  | user
  | admin
  deriving DecidableEq

structure UserRow where
  id : UserId
  email : String
  displayName : String
  role : UserRole
  disabledAt : Option ℕ
  createdAt : ℕ
  lastActiveAt : Option ℕ

/-- A row of `onboarding_profiles`; its due date is a day. -/
structure ProfileRow where
  userId : UserId
  persona : Persona
  deliverableType : DeliverableType
  dueDate : ℕ
  academicLevel : AcademicLevel
  workTools : List WorkTool
  blockers : List Blocker
  acquisitionChannel : AcquisitionChannel
  marketingOptIn : Bool

/-- A row of `lead_scores`. -/
structure ScoreRow where
  userId : UserId
  score : ℕ
  tier : LeadTier
  breakdown : List ScoreBreakdownEntry
  computedAt : ℕ

structure ConnectionRow where
  userId : UserId
  active : Bool

structure SignalRow where
  userId : UserId
  type : LeadSignalType

/-- The tables, with their primary keys. -/
structure LeadDatabase where
  users : List UserRow
  profiles : List ProfileRow
  scores : List ScoreRow
  connections : List ConnectionRow
  signals : List SignalRow
  users_nodup : (users.map (·.id)).Nodup
  profiles_nodup : (profiles.map (·.userId)).Nodup
  scores_nodup : (scores.map (·.userId)).Nodup

/-! ## The query -/

structure LeadListFilter where
  tier : Option LeadTier
  onboardingCompleted : Option Bool
  marketingOptIn : Option Bool
  page : ℤ
  limit : ℤ

/-- A user with its profile and its score. -/
structure Joined where
  u : UserRow
  op : Option ProfileRow
  ls : Option ScoreRow

/-- `FROM users u LEFT JOIN onboarding_profiles op … LEFT JOIN lead_scores ls …`. -/
def LeadDatabase.joined (db : LeadDatabase) : List Joined :=
  let withProfiles := Sql.leftJoin db.users db.profiles fun u op ↦ op.userId = u.id
  let withScores := Sql.leftJoin withProfiles db.scores fun row ls ↦ ls.userId = row.1.id
  withScores.map fun row ↦ ⟨row.1.1, row.1.2, row.2⟩

/-- End users only. -/
def isEligible (row : Joined) : Option Bool :=
  Sql.and (Sql.eq (some row.u.role) (some .user)) (Sql.isNull row.u.disabledAt)

/-- A condition that is added when its parameter is given. -/
def whenGiven {α : Type} (parameter : Option α) (condition : α → Option Bool) : Option Bool :=
  match parameter with
  | some value => condition value
  | none => some true

def where_ (filter : LeadListFilter) (row : Joined) : Option Bool :=
  Sql.and (Sql.and (Sql.and (isEligible row)
    (whenGiven filter.tier fun tier ↦ Sql.eq (Sql.coalesce (row.ls.map (·.tier)) .cold) (some tier)))
    (whenGiven filter.onboardingCompleted fun completed ↦
      Sql.eq (Sql.isNotNull (row.op.map (·.userId))) (some completed)))
    (whenGiven filter.marketingOptIn fun optIn ↦
      Sql.eq (Sql.coalesce (row.op.map (·.marketingOptIn)) false) (some optIn))

/-- The keys of `ORDER BY`. -/
abbrev OrderKey := ℕᵒᵈ ×ₗ WithTop Boolᵒᵈ ×ₗ WithTop ℕ ×ₗ UserId

def orderKey (today : ℕ) (row : Joined) : OrderKey :=
  toLex (Sql.desc ((row.ls.map (·.score)).getD 0),
    toLex (Sql.descNullsLast (row.op.map fun op ↦ decide (today ≤ op.dueDate)),
      toLex (Sql.ascNullsLast (row.op.map (·.dueDate)), row.u.id)))

def toRow (db : LeadDatabase) (row : Joined) : LeadRow where
  userId := row.u.id
  email := row.u.email
  displayName := row.u.displayName
  score := (row.ls.map (·.score)).getD 0
  tier := (row.ls.map (·.tier)).getD .cold
  breakdown := (row.ls.map (·.breakdown)).getD []
  scoreComputedAt := row.ls.map (·.computedAt)
  onboardingCompleted := row.op.isSome
  persona := row.op.map (·.persona)
  deliverableType := row.op.map (·.deliverableType)
  dueDate := row.op.map fun op ↦ isoDate op.dueDate
  academicLevel := row.op.map (·.academicLevel)
  workTools := row.op.map (·.workTools)
  blockers := row.op.map (·.blockers)
  acquisitionChannel := row.op.map (·.acquisitionChannel)
  marketingOptIn := (row.op.map (·.marketingOptIn)).getD false
  hasActiveConnector := db.connections.any fun c ↦ c.userId = row.u.id && c.active
  hasPaywallSignal := db.signals.any fun s ↦ s.userId = row.u.id && s.type = .exportPaywallHit
  registeredAt := row.u.createdAt
  lastActiveAt := row.u.lastActiveAt

/-- `OFFSET` takes a `bigint` that is not negative. -/
def toOffset (value : ℤ) : Option ℕ := if 0 ≤ value ∧ value < 2 ^ 63 then some value.toNat else none

/-- The rows of a page and the number of all rows, unless the offset is rejected. -/
def LeadDatabase.list (db : LeadDatabase) (filter : LeadListFilter) (today : ℕ) :
    Option (List LeadRow × ℕ) := do
  let found := Sql.filter (where_ filter) db.joined
  let offset ← toOffset ((filter.page - 1) * filter.limit)
  let limit ← toOffset filter.limit
  return ((Sql.window limit offset (Sql.orderBy (orderKey today) found)).map (toRow db), found.length)

/-! ## The use case -/

def defaultLeadsLimit : ℤ := 25

def maxLeadsLimit : ℤ := 100

def maxLeadsPage : ℤ := 1000000000

structure ListLeadsInput where
  tier : Option LeadTier
  onboardingCompleted : Option Bool
  marketingOptIn : Option Bool
  page : Option ℤ
  limit : Option ℤ

structure ListLeadsResult where
  items : List LeadRow
  total : ℕ
  page : ℤ
  limit : ℤ

def clamp (value min max : ℤ) : ℤ := Min.min (Max.max value min) max

def appliedPage (page : Option ℤ) : ℤ := clamp (page.getD 1) 1 maxLeadsPage

def appliedLimit (limit : Option ℤ) : ℤ := clamp (limit.getD defaultLeadsLimit) 1 maxLeadsLimit

def ListLeadsUseCase.execute (db : LeadDatabase) (input : ListLeadsInput) (now : Timestamp) :
    Option ListLeadsResult := do
  let page := appliedPage input.page
  let limit := appliedLimit input.limit
  let (rows, total) ← db.list
    ⟨input.tier, input.onboardingCompleted, input.marketingOptIn, page, limit⟩ (day now.ms)
  return ⟨rows, total, page, limit⟩

/-! ## Leads and their order -/

section Order

variable (db : LeadDatabase)

def LeadDatabase.profileOf (u : UserRow) : Option ProfileRow := db.profiles.find? fun op ↦ op.userId = u.id

def LeadDatabase.scoreRowOf (u : UserRow) : Option ScoreRow := db.scores.find? fun ls ↦ ls.userId = u.id

/-- The stored score of a user. -/
def LeadDatabase.scoreOf (u : UserRow) : ℕ := ((db.scoreRowOf u).map (·.score)).getD 0

def LeadDatabase.dueOf (u : UserRow) : Option ℕ := (db.profileOf u).map (·.dueDate)

def LeadDatabase.joinedOf (u : UserRow) : Joined := ⟨u, db.profileOf u, db.scoreRowOf u⟩

/-- The read model of a user. -/
def LeadDatabase.leadOf (u : UserRow) : LeadRow := toRow db (db.joinedOf u)

/-- An end user that meets the conditions of a filter. -/
def LeadListFilter.Passes (filter : LeadListFilter) (u : UserRow) : Prop :=
  (u.role = .user ∧ u.disabledAt = none) ∧
    (∀ tier ∈ filter.tier, ((db.scoreRowOf u).map (·.tier)).getD .cold = tier) ∧
    (∀ completed ∈ filter.onboardingCompleted, (db.profileOf u).isSome = completed) ∧
    ∀ optIn ∈ filter.marketingOptIn, ((db.profileOf u).map (·.marketingOptIn)).getD false = optIn

instance (filter : LeadListFilter) (u : UserRow) : Decidable (filter.Passes db u) := by
  unfold LeadListFilter.Passes
  infer_instance

/-- Due dates from today on come first, then those that have passed, then none. -/
def duePlace (today : ℕ) : Option ℕ → ℕ
  | some due => if today ≤ due then 0 else 1
  | none => 2

/-- Sooner among given dates. -/
def IsSooner (due due' : Option ℕ) : Prop := ∃ d ∈ due, ∃ d' ∈ due', d < d'

/-- By score, the highest first, then by due date, then by id. -/
def Precedes (today : ℕ) (u v : UserRow) : Prop :=
  db.scoreOf v < db.scoreOf u ∨ db.scoreOf u = db.scoreOf v ∧
    (duePlace today (db.dueOf u) < duePlace today (db.dueOf v) ∨
      duePlace today (db.dueOf u) = duePlace today (db.dueOf v) ∧
        (IsSooner (db.dueOf u) (db.dueOf v) ∨ db.dueOf u = db.dueOf v ∧ u.id < v.id))

variable {db}

theorem joined_eq : db.joined = db.users.map db.joinedOf := by
  unfold LeadDatabase.joined
  dsimp only
  rw [Sql.leftJoin_eq_map db.profiles_nodup, Sql.leftJoin_eq_map db.scores_nodup, List.map_map,
    List.map_map]
  rfl

theorem whenGiven_eq_true {α : Type} {parameter : Option α} {condition : α → Option Bool} :
    whenGiven parameter condition = some true ↔ ∀ value ∈ parameter, condition value = some true := by
  cases parameter <;> simp [whenGiven]

theorem where_eq_true {filter : LeadListFilter} {u : UserRow} :
    where_ filter (db.joinedOf u) = some true ↔ filter.Passes db u := by
  unfold where_ LeadListFilter.Passes isEligible
  simp only [Sql.and_eq_true, whenGiven_eq_true, and_assoc]
  simp [LeadDatabase.joinedOf, Sql.coalesce, Sql.isNotNull, and_assoc]

theorem filter_joined (filter : LeadListFilter) :
    Sql.filter (where_ filter) db.joined = (db.users.filter (filter.Passes db ·)).map db.joinedOf := by
  unfold Sql.filter
  rw [joined_eq, List.filter_map]
  congr 1
  refine List.filter_congr fun u _ ↦ ?_
  simp only [Function.comp_apply, where_eq_true]

/-- The key of a condition, `DESC NULLS LAST`, as a place. -/
def placeOf : Option Bool → ℕ
  | some true => 0
  | some false => 1
  | none => 2

theorem duePlace_eq (today : ℕ) (due : Option ℕ) :
    duePlace today due = placeOf (due.map fun d ↦ decide (today ≤ d)) := by
  cases due with
  | none => rfl
  | some d => by_cases h : today ≤ d <;> simp [duePlace, placeOf, h]

theorem descNullsLast_lt {a b : Option Bool} :
    Sql.descNullsLast a < Sql.descNullsLast b ↔ placeOf a < placeOf b := by
  rcases a with - | a <;> rcases b with - | b
  · simp
  · simp [Sql.descNullsLast, placeOf]
    cases b <;> decide
  · simp [Sql.descNullsLast, placeOf]
    cases a <;> decide
  · simp only [Sql.descNullsLast, WithTop.coe_lt_coe, OrderDual.toDual_lt_toDual]
    cases a <;> cases b <;> decide

theorem descNullsLast_inj {a b : Option Bool} :
    Sql.descNullsLast a = Sql.descNullsLast b ↔ placeOf a = placeOf b := by
  rcases a with - | a <;> rcases b with - | b
  · simp
  · simp [Sql.descNullsLast, placeOf]
    cases b <;> decide
  · simp [Sql.descNullsLast, placeOf]
    cases a <;> decide
  · simp only [Sql.descNullsLast, WithTop.coe_inj, OrderDual.toDual_inj]
    cases a <;> cases b <;> decide

theorem duePlace_ne_none {today : ℕ} {due due' : Option ℕ} (h : due ≠ none) (h' : due' = none) :
    duePlace today due ≠ duePlace today due' := by
  subst h'
  cases due with
  | none => exact absurd rfl h
  | some d => by_cases hd : today ≤ d <;> simp [duePlace, hd]

theorem ascNullsLast_lt {due due' : Option ℕ} :
    Sql.ascNullsLast due < Sql.ascNullsLast due' ↔ IsSooner due due' ∨ due ≠ none ∧ due' = none := by
  cases due <;> cases due' <;> simp [Sql.ascNullsLast, IsSooner]

theorem ascNullsLast_inj {due due' : Option ℕ} :
    Sql.ascNullsLast due = Sql.ascNullsLast due' ↔ due = due' := by
  cases due <;> cases due' <;> simp [Sql.ascNullsLast]

/-- The keys of `ORDER BY` order the leads. -/
theorem precedes_of_orderKey_lt {today : ℕ} {u v : UserRow}
    (h : orderKey today (db.joinedOf u) < orderKey today (db.joinedOf v)) : Precedes db today u v := by
  have hdue (w : UserRow) : ((db.joinedOf w).op.map fun op ↦ decide (today ≤ op.dueDate)) =
      (db.dueOf w).map fun d ↦ decide (today ≤ d) := by
    unfold LeadDatabase.dueOf LeadDatabase.joinedOf
    rw [Option.map_map]
    rfl
  unfold orderKey at h
  rw [Prod.Lex.toLex_lt_toLex, Prod.Lex.toLex_lt_toLex, Prod.Lex.toLex_lt_toLex, hdue, hdue,
    descNullsLast_lt, descNullsLast_inj, ← duePlace_eq, ← duePlace_eq] at h
  change db.scoreOf v < db.scoreOf u ∨ _ at h
  rcases h with hscore | ⟨hscore, hplace | ⟨hplace, hdate⟩⟩
  · exact .inl hscore
  · exact .inr ⟨hscore, .inl hplace⟩
  · refine .inr ⟨hscore, .inr ⟨hplace, ?_⟩⟩
    rcases hdate with hsooner | ⟨hsame, hid⟩
    · rcases ascNullsLast_lt.mp hsooner with hsooner | ⟨hsome, hnone⟩
      · exact .inl hsooner
      · exact absurd hplace (duePlace_ne_none hsome hnone)
    · exact .inr ⟨ascNullsLast_inj.mp hsame, hid⟩

end Order

/-! ## Pages -/

section Pages

variable {db : LeadDatabase} {input : ListLeadsInput} {now : Timestamp}

/-- The filter that an input asks for. -/
def ListLeadsInput.filter (input : ListLeadsInput) : LeadListFilter :=
  ⟨input.tier, input.onboardingCompleted, input.marketingOptIn, appliedPage input.page,
    appliedLimit input.limit⟩

/-- The users of the leads that are listed, in their order. -/
def LeadDatabase.listed (db : LeadDatabase) (filter : LeadListFilter) (today : ℕ) : List UserRow :=
  (Sql.orderBy (orderKey today) (Sql.filter (where_ filter) db.joined)).map (·.u)

theorem nodup_users_filter (filter : LeadListFilter) :
    ((db.users.filter (filter.Passes db ·)).map (·.id)).Nodup :=
  db.users_nodup.sublist (List.filter_sublist.map _)

theorem nodup_orderKey (filter : LeadListFilter) (today : ℕ) :
    ((Sql.filter (where_ filter) db.joined).map (orderKey today)).Nodup := by
  have hid : ((Sql.filter (where_ filter) db.joined).map fun row ↦ row.u.id).Nodup := by
    rw [filter_joined, List.map_map]
    exact nodup_users_filter filter
  exact Sql.nodup_of_determines (fun key : OrderKey ↦ (ofLex (ofLex (ofLex key).2).2).2)
    (fun row ↦ rfl) hid

theorem listed_perm (filter : LeadListFilter) (today : ℕ) :
    (db.listed filter today).Perm (db.users.filter (filter.Passes db ·)) := by
  refine ((Sql.orderBy_perm _ _).map _).trans ?_
  rw [filter_joined, List.map_map]
  exact (List.map_id _).symm ▸ List.Perm.refl _

/-- The rows that are read are those of their users. -/
theorem map_joinedOf_listed (filter : LeadListFilter) (today : ℕ) :
    (db.listed filter today).map db.joinedOf =
      Sql.orderBy (orderKey today) (Sql.filter (where_ filter) db.joined) := by
  unfold LeadDatabase.listed
  rw [List.map_map]
  conv_rhs => rw [← List.map_id (Sql.orderBy _ _)]
  refine List.map_congr_left fun row hrow ↦ ?_
  rw [Sql.mem_orderBy, filter_joined] at hrow
  obtain ⟨u, -, rfl⟩ := List.mem_map.mp hrow
  rfl

theorem pairwise_listed (filter : LeadListFilter) (today : ℕ) :
    (db.listed filter today).Pairwise (Precedes db today) := by
  have hnodup : ((Sql.filter (where_ filter) db.joined).map (orderKey today)).Nodup :=
    nodup_orderKey filter today
  have hsorted := Lists.pairwise_lt_mergeSort (orderKey today) hnodup
  rw [← Sql.orderBy, ← map_joinedOf_listed, List.pairwise_map] at hsorted
  exact hsorted.imp fun h ↦ precedes_of_orderKey_lt h

theorem appliedPage_bounds (page : Option ℤ) : 1 ≤ appliedPage page ∧ appliedPage page ≤ 1000000000 := by
  unfold appliedPage clamp maxLeadsPage
  omega

theorem appliedLimit_bounds (limit : Option ℤ) : 1 ≤ appliedLimit limit ∧ appliedLimit limit ≤ 100 := by
  unfold appliedLimit clamp maxLeadsLimit
  omega

/-- The offset of an applied page is a number that is exact, and far inside a `bigint`. -/
theorem offset_bounds (page limit : Option ℤ) :
    0 ≤ (appliedPage page - 1) * appliedLimit limit ∧
      (appliedPage page - 1) * appliedLimit limit < 2 ^ 53 := by
  have hpage := appliedPage_bounds page
  have hlimit := appliedLimit_bounds limit
  constructor
  · exact Int.mul_nonneg (by omega) (by omega)
  · have : (appliedPage page - 1) * appliedLimit limit ≤ 1000000000 * 100 :=
      Int.mul_le_mul (by omega) hlimit.2 (by omega) (by omega)
    omega

/-- Every list request is answered with a window of the listed leads. -/
theorem execute_eq (db : LeadDatabase) (input : ListLeadsInput) (now : Timestamp) :
    ListLeadsUseCase.execute db input now = some
      { items := Sql.window (appliedLimit input.limit).toNat
          ((appliedPage input.page - 1) * appliedLimit input.limit).toNat
          ((db.listed input.filter (day now.ms)).map db.leadOf)
        total := (db.listed input.filter (day now.ms)).length
        page := appliedPage input.page
        limit := appliedLimit input.limit } := by
  have hoffset := offset_bounds input.page input.limit
  have hlimit := appliedLimit_bounds input.limit
  have hto (value : ℤ) (h : 0 ≤ value) (h' : value < 2 ^ 63) : toOffset value = some value.toNat :=
    if_pos ⟨h, h'⟩
  unfold ListLeadsUseCase.execute LeadDatabase.list
  simp only [hto _ hoffset.1 (by omega), hto _ (by omega : 0 ≤ appliedLimit input.limit) (by omega),
    Option.bind_eq_bind, Option.bind_some, Option.pure_def]
  have hrows : (db.listed input.filter (day now.ms)).map db.leadOf =
      (Sql.orderBy (orderKey (day now.ms)) (Sql.filter (where_ input.filter) db.joined)).map (toRow db) := by
    rw [← map_joinedOf_listed, List.map_map]
    rfl
  have htotal : (db.listed input.filter (day now.ms)).length =
      (Sql.filter (where_ input.filter) db.joined).length := by
    unfold LeadDatabase.listed
    rw [List.length_map, (Sql.orderBy_perm _ _).length_eq]
  rw [hrows, htotal, ← Sql.map_window]
  rfl

/-- The number of pages that some rows take. -/
def pageCount (total : ℕ) (limit : Option ℤ) : ℕ :=
  (total + (appliedLimit limit).toNat - 1) / (appliedLimit limit).toNat

/-- The items of a page. -/
def itemsOfPage (db : LeadDatabase) (input : ListLeadsInput) (now : Timestamp) (page : ℤ) : List LeadRow :=
  ((ListLeadsUseCase.execute db { input with page := some page } now).map (·.items)).getD []

/-- The pages side by side are the leads of all users that pass the filter, in order. -/
def PagesPartition (db : LeadDatabase) (input : ListLeadsInput) (now : Timestamp) : Prop :=
  ∃ users : List UserRow, users.Perm (db.users.filter (input.filter.Passes db ·)) ∧
    users.Pairwise (Precedes db (day now.ms)) ∧
    (∀ page, ∃ result, ListLeadsUseCase.execute db { input with page } now = some result ∧
      result.total = users.length) ∧
    (List.range (pageCount users.length input.limit)).flatMap (fun n : ℕ ↦ itemsOfPage db input now (n + 1)) =
      users.map db.leadOf

/-- A page of an input, whatever page the input asks for. -/
theorem itemsOfPage_eq (db : LeadDatabase) (input : ListLeadsInput) (now : Timestamp) (page : ℤ) :
    itemsOfPage db input now page = Sql.window (appliedLimit input.limit).toNat
      ((appliedPage (some page) - 1) * appliedLimit input.limit).toNat
      ((db.listed input.filter (day now.ms)).map db.leadOf) := by
  unfold itemsOfPage
  rw [execute_eq]
  rfl

/-- Up to the last page that can be asked for, pages are windows side by side. -/
theorem itemsOfPage_succ {n : ℕ} (h : n < 1000000000) :
    itemsOfPage db input now (n + 1) = Sql.window (appliedLimit input.limit).toNat
      (n * (appliedLimit input.limit).toNat) ((db.listed input.filter (day now.ms)).map db.leadOf) := by
  have hpage : appliedPage (some ((n : ℤ) + 1)) = n + 1 := by
    unfold appliedPage clamp maxLeadsPage
    rw [Option.getD_some]
    omega
  have hlimit := appliedLimit_bounds input.limit
  obtain ⟨limit, heq⟩ := Int.eq_ofNat_of_zero_le (by omega : 0 ≤ appliedLimit input.limit)
  rw [itemsOfPage_eq, hpage, heq]
  congr 1
  rw [Int.add_sub_cancel, ← Int.natCast_mul]
  rfl

/-- Where the page cap reaches the last lead, the pages partition the leads. -/
theorem pagesPartition (h : (db.users.filter (input.filter.Passes db ·)).length ≤
    1000000000 * (appliedLimit input.limit).toNat) : PagesPartition db input now := by
  have hlimit := appliedLimit_bounds input.limit
  have hperm : (db.listed input.filter (day now.ms)).Perm _ := listed_perm _ _
  have hlength := hperm.length_eq
  refine ⟨db.listed input.filter (day now.ms), listed_perm _ _, pairwise_listed _ _, fun page ↦ ?_, ?_⟩
  · exact ⟨_, execute_eq db { input with page } now, rfl⟩
  · generalize hleads : db.listed input.filter (day now.ms) = leads at hlength
    generalize hwidth : (appliedLimit input.limit).toNat = width at h
    have hpositive : 0 < width := by omega
    have hcount : pageCount leads.length input.limit ≤ 1000000000 := by
      unfold pageCount
      rw [hwidth]
      refine Nat.le_of_lt_succ (Nat.div_lt_of_lt_mul ?_)
      rw [Nat.mul_comm]
      omega
    have hreach : leads.length ≤ pageCount leads.length input.limit * width := by
      unfold pageCount
      rw [hwidth]
      have := Nat.lt_div_mul_add (a := leads.length + width - 1) hpositive
      omega
    have hitems (n : ℕ) (hn : n ∈ List.range (pageCount leads.length input.limit)) :
        itemsOfPage db input now (n + 1) = Sql.window width (n * width) (leads.map db.leadOf) := by
      rw [itemsOfPage_succ (by have := List.mem_range.mp hn; omega), hwidth, hleads]
    rw [List.flatMap_congr hitems, Sql.flatMap_window, List.take_of_length_le (by rwa [List.length_map])]

/-- The user ids of some users are theirs in the read model. -/
theorem nodup_leads {users : List UserRow}
    (h : users.Perm (db.users.filter (input.filter.Passes db ·))) : (users.map db.leadOf).Nodup := by
  have hids : ((users.map db.leadOf).map (·.userId)).Nodup := by
    rw [List.map_map]
    exact (h.map _).nodup_iff.mpr (nodup_users_filter input.filter)
  exact hids.of_map _

/-- Beyond the page cap, the last page is read again. -/
theorem not_pagesPartition (h : 1000000000 * (appliedLimit input.limit).toNat <
    (db.users.filter (input.filter.Passes db ·)).length) : ¬PagesPartition db input now := by
  rintro ⟨users, hperm, -, -, hpages⟩
  have hnodup := nodup_leads hperm
  have hlimit := appliedLimit_bounds input.limit
  have hwhole : (db.listed input.filter (day now.ms)).Perm _ := listed_perm _ _
  have hlisted := hwhole.length_eq
  have hcount : 1000000000 < pageCount users.length input.limit := by
    unfold pageCount
    rw [hperm.length_eq, Nat.lt_div_iff_mul_lt (by omega)]
    omega
  have hsame : itemsOfPage db input now ((999999999 : ℕ) + 1) =
      itemsOfPage db input now ((1000000000 : ℕ) + 1) := by
    have hcap : appliedPage (some (((999999999 : ℕ) : ℤ) + 1)) =
        appliedPage (some (((1000000000 : ℕ) : ℤ) + 1)) := by decide
    rw [itemsOfPage_eq, itemsOfPage_eq, hcap]
  have hsome : itemsOfPage db input now ((999999999 : ℕ) + 1) ≠ [] := by
    rw [itemsOfPage_succ (by omega)]
    intro hnil
    have hlength := congrArg List.length hnil
    unfold Sql.window at hlength
    rw [List.length_take, List.length_drop, List.length_map, hlisted, List.length_nil] at hlength
    omega
  rw [← hpages, List.nodup_flatMap] at hnodup
  have hapart := List.pairwise_iff_getElem.mp hnodup.2 999999999 1000000000
    (by rw [List.length_range]; omega) (by rw [List.length_range]; omega) (by omega)
  rw [List.getElem_range, List.getElem_range] at hapart
  obtain ⟨item, hitem⟩ := List.exists_mem_of_ne_nil _ hsome
  have hitem' := hitem
  rw [hsame] at hitem'
  exact hapart hitem hitem'

end Pages

/-! ## The page cap -/

/-- A user of a number. -/
def numberedUser (n : ℕ) : UserRow := ⟨Fin.ofNat (2 ^ 128) n, "", "", .user, none, 0, none⟩

theorem nodup_numberedUsers {count : ℕ} (h : count ≤ 2 ^ 128) :
    (((List.range count).map numberedUser).map (·.id)).Nodup := by
  rw [List.map_map]
  refine List.Nodup.map_on (fun m hm n hn heq ↦ ?_) List.nodup_range
  have hval := congrArg Fin.val heq
  have hm := List.mem_range.mp hm
  have hn := List.mem_range.mp hn
  simp only [Function.comp_apply, numberedUser, Fin.val_ofNat] at hval
  rwa [Nat.mod_eq_of_lt (by omega), Nat.mod_eq_of_lt (by omega)] at hval

/-- Some numbered users, and nothing about them. -/
def numberedDatabase (count : ℕ) (h : count ≤ 2 ^ 128) : LeadDatabase where
  users := (List.range count).map numberedUser
  profiles := []
  scores := []
  connections := []
  signals := []
  users_nodup := nodup_numberedUsers h
  profiles_nodup := List.nodup_nil
  scores_nodup := List.nodup_nil

/-- All leads, one on each page. -/
def oneByOne : ListLeadsInput := ⟨none, none, none, none, some 1⟩

def epoch : Timestamp := ⟨0, by decide⟩

theorem passes_numbered {count : ℕ} (h : count ≤ 2 ^ 128) :
    (numberedDatabase count h).users.filter (oneByOne.filter.Passes (numberedDatabase count h) ·) =
      (List.range count).map numberedUser := by
  refine List.filter_eq_self.mpr fun u hu ↦ decide_eq_true ?_
  obtain ⟨n, -, rfl⟩ := List.mem_map.mp hu
  exact ⟨⟨rfl, rfl⟩, fun tier htier ↦ absurd htier (Option.not_mem_none tier),
    fun completed h ↦ absurd h (Option.not_mem_none completed),
    fun optIn h ↦ absurd h (Option.not_mem_none optIn)⟩

/-- One user more than there are pages. -/
theorem not_pagesPartition_crowded :
    ¬PagesPartition (numberedDatabase 1000000001 (by decide)) oneByOne epoch := by
  apply not_pagesPartition
  have hlimit : (appliedLimit oneByOne.limit).toNat = 1 := by decide
  rw [hlimit, passes_numbered, List.length_map, List.length_range]
  omega

/-- Where all leads lie within the pages that can be asked for, the pages partition them, and page and
limit count as what they are clamped to, with an exact offset. -/
theorem listLeads_pages {db : LeadDatabase} {input : ListLeadsInput} {now : Timestamp}
    (h : (db.users.filter (input.filter.Passes db ·)).length ≤
      1000000000 * (appliedLimit input.limit).toNat) :
    PagesPartition db input now ∧
      (ListLeadsUseCase.execute db input now = ListLeadsUseCase.execute db
        { input with
          page := some (appliedPage input.page)
          limit := some (appliedLimit input.limit) } now) ∧
      0 ≤ (appliedPage input.page - 1) * appliedLimit input.limit ∧
      (appliedPage input.page - 1) * appliedLimit input.limit < 2 ^ 53 := by
  refine ⟨pagesPartition h, ?_, offset_bounds _ _⟩
  have hpage : appliedPage (some (appliedPage input.page)) = appliedPage input.page := by
    have := appliedPage_bounds input.page
    unfold appliedPage clamp maxLeadsPage at this ⊢
    rw [Option.getD_some]
    omega
  have hlimit : appliedLimit (some (appliedLimit input.limit)) = appliedLimit input.limit := by
    have := appliedLimit_bounds input.limit
    unfold appliedLimit clamp maxLeadsLimit at this ⊢
    rw [Option.getD_some]
    omega
  rw [execute_eq, execute_eq]
  dsimp only
  rw [hpage, hlimit]
  rfl

/-- Two users with a score and a due date that is past or not, one without either, a disabled user and
an administrator. -/
def smallDatabase : LeadDatabase where
  users := [⟨1, "ada", "", .user, none, 0, none⟩, ⟨2, "bob", "", .user, none, 0, some 7⟩,
    ⟨3, "eve", "", .user, none, 0, none⟩, ⟨4, "joe", "", .user, some 9, 0, none⟩,
    ⟨5, "sue", "", .admin, none, 0, none⟩]
  profiles := [⟨1, .intern, .thesis, 3, .m1, [.slack], [], .google, true⟩,
    ⟨2, .intern, .thesis, 8, .m1, [], [], .google, false⟩]
  scores := [⟨1, 40, .warm, [], 0⟩, ⟨2, 40, .warm, [], 0⟩]
  connections := [⟨1, true⟩]
  signals := [⟨2, .exportPaywallHit⟩]
  users_nodup := by decide
  profiles_nodup := by decide
  scores_nodup := by decide

/-- The second page of two leads. -/
def secondPage : ListLeadsInput := ⟨none, none, none, some 2, some 2⟩

/-- The fifth day. -/
def fifthDay : Timestamp := ⟨432000000, by decide⟩

theorem listLeads_pages_small :
    (smallDatabase.users.filter (secondPage.filter.Passes smallDatabase ·)).map (·.email) =
        ["ada", "bob", "eve"] ∧
      PagesPartition smallDatabase secondPage fifthDay := by
  have hleads : (smallDatabase.users.filter (secondPage.filter.Passes smallDatabase ·)).map (·.email) =
      ["ada", "bob", "eve"] := by decide
  have hlength := congrArg List.length hleads
  rw [List.length_map] at hlength
  exact ⟨hleads, (listLeads_pages (by rw [hlength]; decide)).1⟩

end MemoFlowApi.Leads
