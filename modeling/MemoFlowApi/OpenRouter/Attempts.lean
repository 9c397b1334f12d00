import MemoFlowApi.Concurrency.Calls
import MemoFlowApi.OpenRouter.Gateway

/-!
# Attempts of a Completion

Every request to the provider is paid for by a successful hook of its own and made for a reason: it is
the first one, the retry of a failure that allows one, or the one repair.  The reasons are read off the
calls made so far.
-/

namespace MemoFlowApi.OpenRouter

open Concurrency Js

/-- The calls made so far, oldest first. -/
abbrev History := List (Call Ans Thrown)

def isFetch (call : Call Ans Thrown) : Bool :=
  match call.1 with
  | .fetch _ => true
  | _ => false

def isSleep (call : Call Ans Thrown) : Bool :=
  match call.1 with
  | .sleep _ => true
  | _ => false

/-- The number of provider requests. -/
def fetches (calls : History) : ℕ := calls.countP isFetch

/-- The number of waits. -/
def sleeps (calls : History) : ℕ := calls.countP isSleep

/-- The class of failed attempts is not exported: no call throws one. -/
def Foreign (call : Call Ans Thrown) : Prop := ∀ failure, call.2 ≠ .error (.attemptFailure failure)

/-- No hook has thrown. -/
def Unrefused (calls : History) : Prop := ∀ error, ⟨.beforeAttempt, .error error⟩ ∉ calls

/-! ## Failures that allow a retry -/

/-- A header states seconds, or a date that is compared with the clock then read. -/
inductive States (settings : Settings) (header : Text) : History → ℚ → Prop
  | seconds {n : ℚ} (hnumber : settings.toNumber header = .finite n) (h : 0 ≤ n) :
      States settings header [] n
  | date {date : ℚ} {now : ℤ} (hnumber : finite? (settings.toNumber header) = none)
      (h : settings.parseDate header = .finite date) :
      States settings header [⟨.now, .ok now⟩] (max 0 ⌈(date - now) / 1000⌉ : ℤ)

/-- A response 429 whose `Retry-After` states a number of seconds. -/
inductive RateLimited (settings : Settings) : History → ℚ → Prop
  | intro {request response header clock seconds} (hstatus : response.status = 429)
      (hheader : response.retryAfter = some header) (h : States settings header clock seconds) :
      RateLimited settings (⟨.fetch request, .ok response⟩ :: clock) seconds

/-- The text of a successful response reports an error with a status. -/
def Reports (settings : Settings) (text : Text) (status : ℚ) : Prop :=
  ∃ parsed error, parse text = some parsed ∧ toStatus settings (property "code" error) = some status ∧
    (truthy? settings (property "error" parsed) = some error ∨
      ∃ choice, truthy? settings ((property "choices" parsed).bind atZero) = some choice ∧
        truthy? settings (property "error" choice) = some error)

/-- The errors of a timeout. -/
def IsTimeout (error : Thrown) : Prop :=
  error.name = Text.of "TimeoutError" ∨ error.name = Text.of "AbortError"

/-- An attempt, from its request on, that met a server error or a network failure other than a timeout. -/
inductive TransientFailure (settings : Settings) : History → Prop
  | answered {request response} (h : 500 ≤ response.status) :
      TransientFailure settings [⟨.fetch request, .ok response⟩]
  | reported {request response text status} (hok : response.ok) (hreports : Reports settings text status)
      (h : 500 ≤ status) :
      TransientFailure settings [⟨.fetch request, .ok response⟩, ⟨.readText, .ok text⟩]
  | unreachable {request error} (h : ¬IsTimeout error) :
      TransientFailure settings [⟨.fetch request, .error error⟩, ⟨.aborted, .ok false⟩]
  | unreadable {request response error} (hok : response.ok) (h : ¬IsTimeout error) :
      TransientFailure settings
        [⟨.fetch request, .ok response⟩, ⟨.readText, .error error⟩, ⟨.aborted, .ok false⟩]

/-- A failed attempt, the calls of the decision after the clock is read, and the wait decided on. -/
inductive Retryable (settings : Settings) : History → History → ℚ → Prop
  | rateLimit {failed seconds} (h : RateLimited settings failed seconds) (hmost : seconds ≤ 10) :
      Retryable settings failed [] (seconds * 1000)
  | transient {failed} {random : ℚ} (h : TransientFailure settings failed) :
      Retryable settings failed [⟨.random, .ok random⟩] (500 + ⌊random * 250⌋)

/-! ## Reasons for a request -/

/-- The call has just waited for a retry that the failure, the budget and the deadline allow. -/
def MayRetry (settings : Settings) (before : History) : Prop :=
  ∃ start earlier failed now jitter wait,
    before = (⟨.now, .ok start⟩ :: earlier ++ failed) ++ ⟨.now, .ok now⟩ ::
      (jitter ++ [⟨.sleep wait, .ok ()⟩]) ∧
    Retryable settings failed jitter wait ∧
    sleeps (⟨.now, .ok start⟩ :: earlier ++ failed) < maxRetries settings ∧
    1000 ≤ (start + timeoutMs settings - now : ℤ) - wait

/-- Every request so far was the first one or a retry. -/
def OnlyRetries (settings : Settings) (before : History) : Prop :=
  ∀ earlier answer, earlier ++ [⟨.beforeAttempt, answer⟩] <+: before →
    fetches earlier = 0 ∨ MayRetry settings earlier

/-- The call has just read a reply that is no JSON, time is left, and there was no repair before. -/
def MayRepair (settings : Settings) (before : History) : Prop :=
  ∃ start earlier request response text raw now,
    before = ⟨.now, .ok start⟩ :: earlier ++
      [⟨.fetch request, .ok response⟩, ⟨.readText, .ok text⟩, ⟨.now, .ok now⟩] ∧
    response.ok ∧ readResponse settings text = .pure raw ∧ parseJsonContent raw.content = none ∧
    0 < start + timeoutMs settings - now ∧ OnlyRetries settings before

def MayAttempt (settings : Settings) (before : History) : Prop :=
  fetches before = 0 ∨ MayRetry settings before ∨ MayRepair settings before

/-- The hook has just succeeded, and the clock was read for the timeout of the request. -/
def Paid (before : History) : Prop :=
  ∃ earlier now, before = earlier ++ [⟨.beforeAttempt, .ok ()⟩, ⟨.now, .ok now⟩]

/-- What holds when a completion makes a call. -/
def rule (settings : Settings) (before : History) : Op → Prop
  | .beforeAttempt => Unrefused before ∧ MayAttempt settings before
  | .fetch _ => Unrefused before ∧ Paid before ∧ fetches before ≤ maxRetries settings + 1
  | _ => Unrefused before

theorem rule_unrefused {settings : Settings} {before : History} {op : Op}
    (h : rule settings before op) : Unrefused before := by
  cases op with
  | beforeAttempt => exact h.1
  | fetch _ => exact h.1
  | _ => exact h

/-- How a completion may throw: with the error of its hook, if that threw, and never with a failed
attempt. -/
def Ends (error : Thrown) (calls : History) : Prop :=
  (∀ refusal, ⟨.beforeAttempt, .error refusal⟩ ∈ calls → error = refusal) ∧
    ∀ failure, error ≠ .attemptFailure failure

/-! ## One attempt -/

section Attempt

variable {settings : Settings} {calls : History}

@[simp]
theorem fetches_append (calls calls' : History) :
    fetches (calls ++ calls') = fetches calls + fetches calls' := List.countP_append ..

@[simp]
theorem fetches_cons (call : Call Ans Thrown) (calls : History) :
    fetches (call :: calls) = fetches calls + if isFetch call then 1 else 0 := List.countP_cons ..

@[simp]
theorem fetches_nil : fetches [] = 0 := rfl

@[simp]
theorem sleeps_append (calls calls' : History) :
    sleeps (calls ++ calls') = sleeps calls + sleeps calls' := List.countP_append ..

@[simp]
theorem sleeps_cons (call : Call Ans Thrown) (calls : History) :
    sleeps (call :: calls) = sleeps calls + if isSleep call then 1 else 0 := List.countP_cons ..

@[simp]
theorem sleeps_nil : sleeps [] = 0 := rfl

/-- A call other than a hook that threw. -/
def Harmless (call : Call Ans Thrown) : Prop := ∀ error, call ≠ ⟨.beforeAttempt, .error error⟩

theorem Unrefused.append {more : History} (h : Unrefused calls) (hmore : ∀ call ∈ more, Harmless call) :
    Unrefused (calls ++ more) := by
  intro error hmem
  rcases List.mem_append.mp hmem with hcalls | hcall
  · exact h error hcalls
  · exact hmore _ hcall error rfl

theorem Unrefused.ends {error : Thrown} (h : Unrefused calls)
    (herror : ∀ failure, error ≠ .attemptFailure failure) : Ends error calls :=
  ⟨fun refusal hmem ↦ absurd hmem (h refusal), herror⟩

theorem Unrefused.ends_domain {error : DomainError} (h : Unrefused calls) : Ends (.domain error) calls :=
  h.ends fun _ heq ↦ by cases heq

theorem Foreign.ne_attemptFailure {op : Op} {error : Thrown} (h : Foreign ⟨op, .error error⟩)
    (failure : AttemptFailure) : error ≠ .attemptFailure failure := by
  rintro rfl
  exact h failure rfl

/-- A call other than the hook throws. -/
theorem Unrefused.ends_of_thrown {op : Op} {error : Thrown} (h : Unrefused calls)
    (hop : op ≠ .beforeAttempt) (hforeign : Foreign ⟨op, .error error⟩) :
    Ends error (calls ++ [⟨op, .error error⟩]) := by
  refine (h.append fun call hcall refusal heq ↦ ?_).ends hforeign.ne_attemptFailure
  obtain rfl := List.mem_singleton.mp hcall
  exact hop (congrArg Sigma.fst heq)

/-- The hook throws. -/
theorem Unrefused.ends_of_refused {error : Thrown} (h : Unrefused calls)
    (hforeign : Foreign ⟨.beforeAttempt, .error error⟩) :
    Ends error (calls ++ [⟨.beforeAttempt, .error error⟩]) := by
  refine ⟨fun refusal hmem ↦ ?_, hforeign.ne_attemptFailure⟩
  rcases List.mem_append.mp hmem with hcalls | hcall
  · exact absurd hcalls (h refusal)
  · cases List.mem_singleton.mp hcall
    rfl

theorem harmless_of_ne {op : Op} {answer : Except Thrown (Ans op)} (h : op ≠ .beforeAttempt) :
    Harmless ⟨op, answer⟩ := fun _ heq ↦ h (congrArg Sigma.fst heq)

theorem harmless_ok {op : Op} {answer : Ans op} : Harmless ⟨op, .ok answer⟩ := by
  intro error heq
  cases heq

theorem Unrefused.append_one {call : Call Ans Thrown} (h : Unrefused calls) (hcall : Harmless call) :
    Unrefused (calls ++ [call]) :=
  h.append fun _ hmem ↦ by rwa [List.mem_singleton.mp hmem]

/-- Calls other than the hook. -/
def Hookless (calls : History) : Prop := ∀ call ∈ calls, call.1 ≠ .beforeAttempt

theorem Hookless.harmless (h : Hookless calls) : ∀ call ∈ calls, Harmless call :=
  fun call hcall ↦ harmless_of_ne (h call hcall)

/-- A hook that is called for the first request or a retry. -/
theorem OnlyRetries.append_hook {answer : Except Thrown Unit} (h : OnlyRetries settings calls)
    (hlast : fetches calls = 0 ∨ MayRetry settings calls) :
    OnlyRetries settings (calls ++ [⟨.beforeAttempt, answer⟩]) := by
  intro earlier answer' hearlier
  rcases List.prefix_concat_iff.mp hearlier with heq | hearlier
  · rwa [(List.append_inj' heq rfl).1]
  · exact h earlier answer' hearlier

theorem OnlyRetries.append {more : History} (h : OnlyRetries settings calls) (hmore : Hookless more) :
    OnlyRetries settings (calls ++ more) := by
  induction more using List.reverseRecOn with
  | nil => rwa [List.append_nil]
  | append_singleton more call ih =>
    rw [← List.append_assoc]
    intro earlier answer hearlier
    rcases List.prefix_concat_iff.mp hearlier with heq | hearlier
    · obtain ⟨-, hcall⟩ := List.append_inj' heq rfl
      exact absurd (congrArg Sigma.fst (List.cons.inj hcall).1.symm) (hmore call (by simp))
    · exact ih (fun other hother ↦ hmore other (List.mem_append_left _ hother)) earlier answer hearlier

/-- The calls of a completion. -/
abbrev callSpec (settings : Settings) : CallSpec Ans Thrown History := assumeSpec Foreign (rule settings)

/-- A call that any caller may make before its hook has thrown. -/
theorem wp_plain {op : Op} {Q : Ans op → History → Prop} {E : Thrown → History → Prop}
    (hrule : Unrefused calls → rule settings calls op) (hop : op ≠ .beforeAttempt)
    (h : Unrefused calls) (hQ : ∀ answer, Q answer (calls ++ [⟨op, .ok answer⟩]))
    (hE : ∀ error calls', Ends error calls' → E error calls') :
    (await op).wp (callSpec settings) Q E calls :=
  Program.wp_assumeSpec_perform (hrule h) (fun answer _ ↦ hQ answer)
    fun error hforeign ↦ hE error _ (h.ends_of_thrown hop hforeign)

/-- The clock is read at most once. -/
def Clock (calls : History) : Prop := calls = [] ∨ ∃ now, calls = [⟨.now, .ok now⟩]

theorem wp_parseRetryAfter {header : Option Text} {Q : Option ℚ → History → Prop}
    {E : Thrown → History → Prop} (h : Unrefused calls)
    (hQ : ∀ result clock, Clock clock →
      (∀ seconds ∈ result, ∃ text, header = some text ∧ States settings text clock seconds) →
      Q result (calls ++ clock))
    (hE : ∀ error calls', Ends error calls' → E error calls') :
    (parseRetryAfter settings header).wp (callSpec settings) Q E calls := by
  have hnone : Q none calls := by
    have := hQ none [] (.inl rfl) fun seconds hseconds ↦ by cases hseconds
    rwa [List.append_nil] at this
  unfold parseRetryAfter
  split
  · exact hnone
  · rename_i text htext
    obtain ⟨rfl, -⟩ := Option.filter_eq_some_iff.mp htext
    split
    · rename_i n hn
      have hnumber : settings.toNumber text = .finite n := by
        cases hvalue : settings.toNumber text with
        | finite m => simpa [finite?, hvalue] using hn
        | _ => simp [finite?, hvalue] at hn
      split_ifs with hpos
      · have := hQ (some n) [] (.inl rfl) fun seconds hseconds ↦
          ⟨text, rfl, by cases hseconds; exact .seconds hnumber hpos⟩
        rwa [List.append_nil] at this
      · exact hnone
    · rename_i hnumber
      split
      · exact hnone
      · rename_i date hdate
        have hparsed : settings.parseDate text = .finite date := by
          cases hvalue : settings.parseDate text with
          | finite m => simpa [finite?, hvalue] using hdate
          | _ => simp [finite?, hvalue] at hdate
        rw [Program.wp_bind]
        refine wp_plain id (by simp) h (fun now ↦ ?_) hE
        exact hQ _ _ (.inr ⟨now, rfl⟩) fun seconds hseconds ↦
          ⟨text, rfl, by cases hseconds; exact .date hnumber hparsed⟩

/-- What a failure says about the status that it maps, and the clock read for it. -/
structure Mapped (settings : Settings) (status : Option ℚ) (retryAfter : Option Text)
    (failure : AttemptFailure) (clock : History) : Prop where
  read : Clock clock
  rateLimit : failure.retry = .rateLimit → status = some 429 ∧
    ∀ seconds ∈ failure.retryAfterSeconds, ∃ text, retryAfter = some text ∧
      States settings text clock seconds
  transient : failure.retry = .transient → clock = [] ∧ ∃ code, status = some code ∧ 500 ≤ code

theorem mapped_failWith {status : Option ℚ} {retryAfter : Option Text} {error : DomainError} :
    Mapped settings status retryAfter (failWith error) [] := by
  refine ⟨.inl rfl, fun h ↦ ?_, fun h ↦ ?_⟩
  · cases h
  · cases h

theorem wp_mapStatus {status : Option ℚ} {retryAfter : Option Text}
    {Q : AttemptFailure → History → Prop} {E : Thrown → History → Prop} (h : Unrefused calls)
    (hQ : ∀ failure clock, Mapped settings status retryAfter failure clock → Q failure (calls ++ clock))
    (hE : ∀ error calls', Ends error calls' → E error calls') :
    (mapStatus settings status retryAfter).wp (callSpec settings) Q E calls := by
  have hfail (error : DomainError) : Q (failWith error) calls := by
    have := hQ (failWith error) [] mapped_failWith
    rwa [List.append_nil] at this
  unfold mapStatus
  split
  · exact hfail _
  · rename_i code
    split_ifs with hlimited hserver htimeout
    · rw [Program.wp_bind]
      refine wp_parseRetryAfter h (fun result clock hclock hstates ↦ ?_) hE
      refine hQ _ clock ⟨hclock, fun _ ↦ ⟨congrArg some hlimited, hstates⟩, fun hretry ↦ ?_⟩
      cases hretry
    · have := hQ ⟨.unavailable unavailableMessage, .transient, none⟩ []
        ⟨.inl rfl, (fun hretry ↦ by cases hretry), fun _ ↦ ⟨rfl, code, rfl, hserver⟩⟩
      rwa [List.append_nil] at this
    · exact hfail _
    · exact hfail _

theorem wp_networkFailure {error : Thrown} {Q : AttemptFailure → History → Prop}
    {E : Thrown → History → Prop} (h : Unrefused calls)
    (hQ : ∀ failure aborted, failure.retry ≠ .rateLimit →
      (failure.retry = .transient → aborted = false ∧ ¬IsTimeout error) →
      Q failure (calls ++ [⟨.aborted, .ok aborted⟩]))
    (hE : ∀ error calls', Ends error calls' → E error calls') :
    (networkFailure error).wp (callSpec settings) Q E calls := by
  unfold networkFailure
  rw [Program.wp_bind]
  refine wp_plain id (by simp) h (fun aborted ↦ hQ _ aborted ?_ ?_) hE
  · split_ifs <;> simp
  · intro hretry
    split_ifs at hretry with htimeout
    simp only [Bool.or_eq_true, decide_eq_true_eq, not_or, Bool.not_eq_true] at htimeout
    exact ⟨htimeout.1.1, fun hname ↦ hname.elim htimeout.1.2 htimeout.2⟩

/-- What the calls of a failed attempt, from its request on, say about its failure. -/
structure Describes (settings : Settings) (failed : History) (failure : AttemptFailure) : Prop where
  fetches_eq : fetches failed = 1
  sleeps_eq : sleeps failed = 0
  hookless : Hookless failed
  rateLimit : failure.retry = .rateLimit →
    ∀ seconds ∈ failure.retryAfterSeconds, RateLimited settings failed seconds
  transient : failure.retry = .transient → TransientFailure settings failed

theorem wp_throwFailure {failure : Async AttemptFailure} {Q : α → History → Prop}
    {E : Thrown → History → Prop}
    (h : failure.wp (callSpec settings) (fun failure ↦ E (.attemptFailure failure)) E calls) :
    (throwFailure failure : Async α).wp (callSpec settings) Q E calls := by
  unfold throwFailure
  rw [Program.wp_bind]
  exact h

/-- A choice without an error is a reply or an error of the provider. -/
theorem readChoice_eq (settings : Settings) (parsed choice : JsonValue) :
    (∃ raw, readChoice settings parsed choice = .pure raw) ∨
      ∃ error, readChoice settings parsed choice = throwDomain error := by
  unfold readChoice
  dsimp only
  split_ifs
  · exact .inr ⟨_, rfl⟩
  · exact .inr ⟨_, rfl⟩
  · split
    · split_ifs
      · exact .inr ⟨_, rfl⟩
      · exact .inl ⟨_, rfl⟩
    · exact .inr ⟨_, rfl⟩

/-- What a reported error leads to. -/
theorem wp_readBody {text : Text} {parsed : JsonValue} {Q : RawCompletion → History → Prop}
    {E : Thrown → History → Prop} (h : Unrefused calls) (hparse : parse text = some parsed)
    (hQ : ∀ raw, readBody settings parsed = .pure raw → Q raw calls)
    (hfail : ∀ failure clock, Clock clock →
      (failure.retry = .rateLimit → failure.retryAfterSeconds = none) →
      (failure.retry = .transient → clock = [] ∧ ∃ status, Reports settings text status ∧ 500 ≤ status) →
      E (.attemptFailure failure) (calls ++ clock))
    (hE : ∀ error calls', Ends error calls' → E error calls') :
    (readBody settings parsed).wp (callSpec settings) Q E calls := by
  have hmapped (error : JsonValue)
      (herror : truthy? settings (property "error" parsed) = some error ∨
        ∃ choice, truthy? settings ((property "choices" parsed).bind atZero) = some choice ∧
          truthy? settings (property "error" choice) = some error) :
      (throwFailure (mapStatus settings (toStatus settings (property "code" error)) none) :
        Async RawCompletion).wp (callSpec settings) Q E calls := by
    refine wp_throwFailure (wp_mapStatus h (fun failure clock hmapped ↦ ?_) hE)
    refine hfail failure clock hmapped.read (fun hretry ↦ ?_) fun hretry ↦ ?_
    · rw [Option.eq_none_iff_forall_not_mem]
      intro seconds hseconds
      obtain ⟨text, htext, -⟩ := (hmapped.rateLimit hretry).2 seconds hseconds
      cases htext
    · obtain ⟨hclock, status, hstatus, hcode⟩ := hmapped.transient hretry
      exact ⟨hclock, status, ⟨parsed, error, hparse, hstatus, herror⟩, hcode⟩
  have hdomain (error : DomainError) : E (.domain error) calls := hE _ _ h.ends_domain
  unfold readBody
  split
  · rename_i error herror
    exact hmapped error (.inl herror)
  · rename_i hnoError
    split
    · exact hdomain _
    · rename_i choice hchoice
      split
      · rename_i error herror
        exact hmapped error (.inr ⟨choice, hchoice, herror⟩)
      · rename_i hnoChoiceError
        have hbody : readBody settings parsed = readChoice settings parsed choice := by
          simp only [readBody, hnoError, hchoice, hnoChoiceError]
        rcases readChoice_eq settings parsed choice with ⟨raw, hraw⟩ | ⟨error, herror⟩
        · rw [hraw]
          exact hQ raw (hbody.trans hraw)
        · rw [herror]
          exact hdomain error

theorem wp_readResponse {text : Text} {Q : RawCompletion → History → Prop}
    {E : Thrown → History → Prop} (h : Unrefused calls)
    (hQ : ∀ raw, readResponse settings text = .pure raw → Q raw calls)
    (hfail : ∀ failure clock, Clock clock →
      (failure.retry = .rateLimit → failure.retryAfterSeconds = none) →
      (failure.retry = .transient → clock = [] ∧ ∃ status, Reports settings text status ∧ 500 ≤ status) →
      E (.attemptFailure failure) (calls ++ clock))
    (hE : ∀ error calls', Ends error calls' → E error calls') :
    (readResponse settings text).wp (callSpec settings) Q E calls := by
  cases hparse : (parse text).filter isObject with
  | none =>
    simp only [readResponse, hparse]
    exact hE _ _ h.ends_domain
  | some parsed =>
    have hbody : readResponse settings text = readBody settings parsed := by
      simp only [readResponse, hparse]
    rw [hbody] at hQ ⊢
    exact wp_readBody h (Option.filter_eq_some_iff.mp hparse).1 hQ hfail hE

theorem Clock.fetches_eq {clock : History} (h : Clock clock) : fetches clock = 0 := by
  rcases h with rfl | ⟨now, rfl⟩ <;> simp [isFetch]

theorem Clock.sleeps_eq {clock : History} (h : Clock clock) : sleeps clock = 0 := by
  rcases h with rfl | ⟨now, rfl⟩ <;> simp [isSleep]

theorem Clock.hookless {clock : History} (h : Clock clock) : Hookless clock := by
  rcases h with rfl | ⟨now, rfl⟩ <;> simp [Hookless]

/-- A response whose status is mapped to a failure. -/
theorem describes_of_mapped {posted : ChatRequest} {response : Response} {failure : AttemptFailure}
    {clock : History}
    (h : Mapped settings (some (response.status : ℚ)) response.retryAfter failure clock) :
    Describes settings (⟨.fetch posted, .ok response⟩ :: clock) failure where
  fetches_eq := by simp [isFetch, h.read.fetches_eq]
  sleeps_eq := by simp [isSleep, h.read.sleeps_eq]
  hookless := List.forall_mem_cons.mpr ⟨by simp, h.read.hookless⟩
  rateLimit hretry seconds hseconds := by
    obtain ⟨hstatus, hstates⟩ := h.rateLimit hretry
    obtain ⟨text, htext, hstates⟩ := hstates seconds hseconds
    exact .intro (by exact_mod_cast Option.some.inj hstatus) htext hstates
  transient hretry := by
    obtain ⟨rfl, code, hcode, hserver⟩ := h.transient hretry
    cases hcode
    exact .answered (by exact_mod_cast hserver)

/-- A successful response whose text reports an error. -/
theorem describes_of_text {posted : ChatRequest} {response : Response} {text : Text}
    {failure : AttemptFailure} {clock : History} (hclock : Clock clock) (hok : response.ok)
    (hlimited : failure.retry = .rateLimit → failure.retryAfterSeconds = none)
    (htransient : failure.retry = .transient →
      clock = [] ∧ ∃ status, Reports settings text status ∧ 500 ≤ status) :
    Describes settings ([⟨.fetch posted, .ok response⟩, ⟨.readText, .ok text⟩] ++ clock) failure where
  fetches_eq := by simp [isFetch, hclock.fetches_eq]
  sleeps_eq := by simp [isSleep, hclock.sleeps_eq]
  hookless := List.forall_mem_cons.mpr ⟨by simp, List.forall_mem_cons.mpr ⟨by simp, hclock.hookless⟩⟩
  rateLimit hretry seconds hseconds := by
    rw [hlimited hretry] at hseconds
    cases hseconds
  transient hretry := by
    obtain ⟨rfl, status, hreports, hserver⟩ := htransient hretry
    exact .reported hok hreports hserver

/-- A failure of the network is no rate limit. -/
theorem describes_of_network {failed : History} {failure : AttemptFailure}
    (hplain : fetches failed = 1 ∧ sleeps failed = 0 ∧ Hookless failed)
    (hlimited : failure.retry ≠ .rateLimit)
    (htransient : failure.retry = .transient → TransientFailure settings failed) :
    Describes settings failed failure :=
  ⟨hplain.1, hplain.2.1, hplain.2.2, fun hretry ↦ absurd hretry hlimited, htransient⟩

/-- The hook and the clock before a request. -/
def paid (now : ℤ) : History := [⟨.beforeAttempt, .ok ()⟩, ⟨.now, .ok now⟩]

theorem harmless_paid (now : ℤ) : ∀ call ∈ paid now, Harmless call := by
  intro call hcall
  simp only [paid, List.mem_cons, List.not_mem_nil, or_false] at hcall
  rcases hcall with rfl | rfl
  · exact harmless_ok
  · exact harmless_ok

@[simp]
theorem fetches_paid (now : ℤ) : fetches (paid now) = 0 := rfl

@[simp]
theorem sleeps_paid (now : ℤ) : sleeps (paid now) = 0 := rfl

theorem OnlyRetries.paid (now : ℤ) (h : OnlyRetries settings calls)
    (hlast : fetches calls = 0 ∨ MayRetry settings calls) : OnlyRetries settings (calls ++ paid now) := by
  have hhook : OnlyRetries settings (calls ++ [⟨.beforeAttempt, .ok ()⟩]) := h.append_hook hlast
  have hclock : Hookless [⟨.now, .ok now⟩] := by simp [Hookless]
  have := hhook.append hclock
  rwa [List.append_assoc] at this

theorem wp_attempt {request : LlmCompletionRequest} {messages : List ChatMessage} {deadline : ℤ}
    {Q : RawCompletion → History → Prop} {E : Thrown → History → Prop} (h : Unrefused calls)
    (hmay : MayAttempt settings calls) (hfetches : fetches calls ≤ maxRetries settings + 1)
    (hQ : ∀ now posted response text raw, response.ok → readResponse settings text = .pure raw →
      Q raw (calls ++ paid now ++ [⟨.fetch posted, .ok response⟩, ⟨.readText, .ok text⟩]))
    (hfail : ∀ now failed failure, Describes settings failed failure →
      E (.attemptFailure failure) (calls ++ paid now ++ failed))
    (hE : ∀ error calls', Ends error calls' → E error calls') :
    (attempt settings request messages deadline).wp (callSpec settings) Q E calls := by
  unfold attempt
  rw [Program.wp_bind]
  refine Program.wp_assumeSpec_perform ⟨h, hmay⟩ (fun _ _ ↦ ?_)
    fun error hforeign ↦ hE error _ (h.ends_of_refused hforeign)
  have hhook : Unrefused (calls ++ [⟨.beforeAttempt, .ok ()⟩]) :=
    h.append_one harmless_ok
  rw [Program.wp_bind]
  refine wp_plain id (by simp) hhook (fun now ↦ ?_) hE
  have hcalls : calls ++ [⟨.beforeAttempt, .ok ()⟩] ++ [⟨.now, .ok now⟩] = calls ++ paid now :=
    List.append_assoc ..
  rw [hcalls, Program.wp_bind, Program.wp_attempt]
  have hpaid : Unrefused (calls ++ paid now) := h.append (harmless_paid now)
  have hrule : rule settings (calls ++ paid now)
      (.fetch (chatRequest settings request messages deadline now)) :=
    ⟨hpaid, ⟨calls, now, rfl⟩, by simpa [paid, isFetch] using hfetches⟩
  refine Program.wp_assumeSpec_perform hrule (fun response _ ↦ ?_) fun error hforeign ↦ ?_
  · have hresponse : Unrefused (calls ++ paid now ++
        [⟨.fetch (chatRequest settings request messages deadline now), .ok response⟩]) :=
      hpaid.append_one harmless_ok
    dsimp only
    split_ifs with hok
    · refine wp_throwFailure (wp_mapStatus hresponse (fun failure clock hmapped ↦ ?_) hE)
      rw [List.append_assoc]
      exact hfail now _ failure (describes_of_mapped hmapped)
    · have hok : response.ok := by simpa using hok
      rw [Program.wp_bind, Program.wp_attempt]
      refine Program.wp_assumeSpec_perform hresponse (fun text _ ↦ ?_) fun error hforeign ↦ ?_
      · have htext : Unrefused (_ ++ [⟨.readText, .ok text⟩]) := hresponse.append_one harmless_ok
        rw [List.append_assoc] at htext ⊢
        refine wp_readResponse htext (fun raw hraw ↦ hQ now _ response text raw hok hraw) ?_ hE
        intro failure clock hclock hlimited htransient
        rw [List.append_assoc]
        exact hfail now _ failure (describes_of_text hclock hok hlimited htransient)
      · have herror : Unrefused (calls ++ paid now ++
            [⟨.fetch (chatRequest settings request messages deadline now), .ok response⟩] ++
              [⟨.readText, .error error⟩]) := hresponse.append_one (harmless_of_ne (by simp))
        refine wp_throwFailure (wp_networkFailure herror (fun failure aborted hlimited htransient ↦ ?_) hE)
        rw [List.append_assoc, List.append_assoc]
        refine hfail now _ failure (describes_of_network ?_ hlimited fun hretry ↦ ?_)
        · exact ⟨by simp [isFetch], by simp [isSleep], by simp [Hookless]⟩
        · obtain ⟨rfl, htimeout⟩ := htransient hretry
          exact .unreadable hok htimeout
  · have herror : Unrefused (calls ++ paid now ++
        [⟨.fetch (chatRequest settings request messages deadline now), .error error⟩]) :=
      hpaid.append_one (harmless_of_ne (by simp))
    refine wp_throwFailure (wp_networkFailure herror (fun failure aborted hlimited htransient ↦ ?_) hE)
    rw [List.append_assoc]
    refine hfail now _ failure (describes_of_network ?_ hlimited fun hretry ↦ ?_)
    · exact ⟨by simp [isFetch], by simp [isSleep], by simp [Hookless]⟩
    · obtain ⟨rfl, htimeout⟩ := htransient hretry
      exact .unreachable htimeout

end Attempt

/-! ## Retries -/

section Retries

variable {settings : Settings} {calls failed jitter : History} {failure : AttemptFailure}
  {deadline : ℤ} {left : ℕ} {wait : ℚ}

/-- The wait that a failure asks for, and the calls made to compute it. -/
def Waits (failure : AttemptFailure) (jitter : History) (wait : ℚ) : Prop :=
  (failure.retry = .rateLimit ∧ jitter = [] ∧
      ∃ seconds, failure.retryAfterSeconds = some seconds ∧ seconds ≤ 10 ∧ wait = seconds * 1000) ∨
    (failure.retry = .transient ∧
      ∃ random : ℚ, jitter = [⟨.random, .ok random⟩] ∧ wait = 500 + ⌊random * 250⌋)

theorem Describes.retryable (h : Describes settings failed failure) (hwait : Waits failure jitter wait) :
    Retryable settings failed jitter wait := by
  rcases hwait with ⟨hretry, rfl, seconds, hseconds, hmost, rfl⟩ | ⟨hretry, random, rfl, rfl⟩
  · exact .rateLimit (h.rateLimit hretry seconds hseconds) hmost
  · exact .transient (h.transient hretry)

theorem fitting_eq_some {remaining waitMs : ℚ} (h : fitting remaining waitMs = some wait) :
    wait = waitMs ∧ 1000 ≤ remaining - wait := by
  unfold fitting minTimeAfterWaitMs at h
  split_ifs at h with hfits
  cases h
  exact ⟨rfl, hfits⟩

theorem wp_retryDelayMs {Q : Option ℚ → History → Prop} {E : Thrown → History → Prop}
    (h : Unrefused calls) (hgive : ∀ calls', Unrefused calls' → Q none calls')
    (hwait : ∀ now jitter wait, left ≠ 0 → Waits failure jitter wait →
      1000 ≤ (deadline - now : ℤ) - wait → Q (some wait) (calls ++ ⟨.now, .ok now⟩ :: jitter))
    (hE : ∀ error calls', Ends error calls' → E error calls') :
    (retryDelayMs failure deadline left).wp (callSpec settings) Q E calls := by
  unfold retryDelayMs
  by_cases hstop : left = 0 ∨ failure.retry = .none
  · rw [if_pos hstop]
    exact hgive calls h
  rw [if_neg hstop, Program.wp_bind]
  rw [not_or] at hstop
  refine wp_plain id (by simp) h (fun now ↦ ?_) hE
  have hnow : Unrefused (calls ++ [⟨.now, .ok now⟩]) := h.append_one harmless_ok
  dsimp only
  split_ifs with hlimited
  · cases hseconds : failure.retryAfterSeconds with
    | none => exact hgive _ hnow
    | some seconds =>
      dsimp only
      split_ifs with hlong
      · exact hgive _ hnow
      · cases hfits : fitting (deadline - now : ℤ) (seconds * 1000) with
        | none => exact hgive _ hnow
        | some wait =>
          obtain ⟨rfl, hleaves⟩ := fitting_eq_some hfits
          refine hwait now [] _ hstop.1 (.inl ⟨hlimited, rfl, seconds, hseconds, ?_, rfl⟩) hleaves
          exact not_lt.mp hlong
  · rw [Program.wp_bind]
    refine wp_plain id (by simp) hnow (fun random ↦ ?_) hE
    have hrandom : Unrefused (_ ++ [⟨.random, .ok random⟩]) := hnow.append_one harmless_ok
    rw [List.append_assoc] at hrandom ⊢
    cases hfits : fitting (deadline - now : ℤ) (backoffBaseMs + ⌊random * backoffJitterMs⌋) with
    | none => exact hgive _ hrandom
    | some wait =>
      obtain ⟨rfl, hleaves⟩ := fitting_eq_some hfits
      have htransient : failure.retry = .transient := by
        cases hkind : failure.retry with
        | rateLimit => exact absurd hkind hlimited
        | transient => rfl
        | none => exact absurd hkind hstop.2
      exact hwait now [⟨.random, .ok random⟩] _ hstop.1 (.inr ⟨htransient, random, rfl, rfl⟩) hleaves

/-- The state before an attempt: `asked` is the number of requests that were no retries. -/
structure Ready (settings : Settings) (deadline : ℤ) (left asked : ℕ) (calls : History) : Prop where
  unrefused : Unrefused calls
  may : MayAttempt settings calls
  started : ∃ start earlier, calls = ⟨.now, .ok start⟩ :: earlier ∧
    deadline = start + timeoutMs settings
  budget : sleeps calls + left = maxRetries settings
  asked_eq : fetches calls = sleeps calls + asked
  retried : asked = 0 → OnlyRetries settings calls ∧ (fetches calls = 0 ∨ MayRetry settings calls)

/-- The state after a reply. -/
structure Replied (settings : Settings) (deadline : ℤ) (left asked : ℕ) (raw : RawCompletion)
    (calls : History) : Prop where
  unrefused : Unrefused calls
  read : ∃ start earlier posted response text,
    calls = ⟨.now, .ok start⟩ :: earlier ++ [⟨.fetch posted, .ok response⟩, ⟨.readText, .ok text⟩] ∧
    deadline = start + timeoutMs settings ∧ response.ok ∧ readResponse settings text = .pure raw
  budget : sleeps calls + left = maxRetries settings
  asked_eq : fetches calls = sleeps calls + (asked + 1)
  retried : asked = 0 → OnlyRetries settings calls

variable {asked : ℕ}

/-- A retry is as ready as the failed attempt was. -/
theorem Ready.again {decided : ℤ} (now : ℤ) (h : Ready settings deadline (left + 1) asked calls)
    (hfailed : Describes settings failed failure) (hwait : Waits failure jitter wait)
    (hleaves : 1000 ≤ (deadline - decided : ℤ) - wait) :
    Ready settings deadline left asked
      (calls ++ paid now ++ failed ++ ⟨.now, .ok decided⟩ :: jitter ++ [⟨.sleep wait, .ok ()⟩]) := by
  obtain ⟨start, earlier, rfl, rfl⟩ := h.started
  have hjitter : fetches jitter = 0 ∧ sleeps jitter = 0 ∧ Hookless jitter := by
    rcases hwait with ⟨-, rfl, -⟩ | ⟨-, random, rfl, -⟩
    · simp [Hookless]
    · simp [isFetch, isSleep, Hookless]
  have hbudget := h.budget
  have hasked := h.asked_eq
  have hmay : MayRetry settings (⟨.now, .ok start⟩ :: earlier ++ paid now ++ failed ++
      ⟨.now, .ok decided⟩ :: jitter ++ [⟨.sleep wait, .ok ()⟩]) := by
    refine ⟨start, earlier ++ paid now, failed, decided, jitter, wait, ?_, ?_, ?_, hleaves⟩
    · simp
    · exact hfailed.retryable hwait
    · simp [isSleep, hfailed.sleeps_eq] at hbudget ⊢
      omega
  constructor
  · have hfailing := (h.unrefused.append (harmless_paid now)).append hfailed.hookless.harmless
    refine (hfailing.append fun call hcall ↦ ?_).append_one harmless_ok
    rcases List.mem_cons.mp hcall with rfl | hcall
    · exact harmless_ok
    · exact hjitter.2.2.harmless call hcall
  · exact .inr (.inl hmay)
  · exact ⟨start, earlier ++ paid now ++ failed ++ ⟨.now, .ok decided⟩ :: jitter ++
      [⟨.sleep wait, .ok ()⟩], by simp, rfl⟩
  · simp [isSleep, hfailed.sleeps_eq, hjitter.2.1] at hbudget ⊢
    omega
  · simp [isSleep, isFetch, hfailed.sleeps_eq, hfailed.fetches_eq, hjitter.1, hjitter.2.1] at hasked ⊢
    omega
  · intro hfirst
    obtain ⟨hretries, hlast⟩ := h.retried hfirst
    refine ⟨?_, .inr hmay⟩
    have hfailing := (hretries.paid now hlast).append hfailed.hookless
    refine (hfailing.append ?_).append (by simp [Hookless])
    exact List.forall_mem_cons.mpr ⟨by simp, hjitter.2.2⟩

theorem Ready.fetches_le (h : Ready settings deadline left asked calls) (hasked : asked ≤ 1) :
    fetches calls ≤ maxRetries settings + 1 := by
  have := h.budget
  have := h.asked_eq
  omega

theorem Ready.replied {now : ℤ} {posted : ChatRequest} {response : Response} {text : Text}
    {raw : RawCompletion} (h : Ready settings deadline left asked calls) (hok : response.ok)
    (hraw : readResponse settings text = .pure raw) :
    Replied settings deadline left asked raw
      (calls ++ paid now ++ [⟨.fetch posted, .ok response⟩, ⟨.readText, .ok text⟩]) := by
  obtain ⟨start, earlier, rfl, rfl⟩ := h.started
  have hbudget := h.budget
  have hasked := h.asked_eq
  constructor
  · refine (h.unrefused.append (harmless_paid now)).append ?_
    exact List.forall_mem_cons.mpr ⟨harmless_ok, List.forall_mem_singleton.mpr harmless_ok⟩
  · exact ⟨start, earlier ++ paid now, posted, response, text, by simp, rfl, hok, hraw⟩
  · simp [isSleep] at hbudget ⊢
    omega
  · simp [isSleep, isFetch] at hasked ⊢
    omega
  · intro hfirst
    obtain ⟨hretries, hlast⟩ := h.retried hfirst
    exact (hretries.paid now hlast).append (by simp [Hookless])

theorem wp_afterFailure {again : Async α} {now : ℤ} {Q : α → History → Prop}
    {E : Thrown → History → Prop} (h : Ready settings deadline left asked calls)
    (hfailed : Describes settings failed failure)
    (hagain : ∀ left' calls', left = left' + 1 → Ready settings deadline left' asked calls' →
      again.wp (callSpec settings) Q E calls')
    (hE : ∀ error calls', Ends error calls' → E error calls') :
    (afterFailure failure deadline left again).wp (callSpec settings) Q E
      (calls ++ paid now ++ failed) := by
  have hunrefused := (h.unrefused.append (harmless_paid now)).append hfailed.hookless.harmless
  unfold afterFailure
  rw [Program.wp_bind]
  refine wp_retryDelayMs hunrefused (fun calls' hgiven ↦ ?_)
    (fun decided jitter wait hleft hwait hleaves ↦ ?_) hE
  · exact hE _ _ hgiven.ends_domain
  · obtain ⟨left, rfl⟩ := Nat.exists_eq_succ_of_ne_zero hleft
    have hready := h.again now hfailed hwait hleaves
    have hjitter : Unrefused (calls ++ paid now ++ failed ++ ⟨.now, .ok decided⟩ :: jitter) :=
      fun error hmem ↦ hready.unrefused error (List.mem_append_left _ hmem)
    dsimp only
    rw [Program.wp_bind]
    exact wp_plain id (by simp) hjitter (fun _ ↦ hagain left _ rfl hready) hE

theorem wp_callWithRetries {request : LlmCompletionRequest} {messages : List ChatMessage}
    {Q : RawCompletion × ℕ → History → Prop} {E : Thrown → History → Prop} (hasked : asked ≤ 1)
    (h : Ready settings deadline left asked calls)
    (hQ : ∀ raw left' calls', Replied settings deadline left' asked raw calls' → Q (raw, left') calls')
    (hE : ∀ error calls', Ends error calls' → E error calls') :
    (callWithRetries settings request messages deadline left).wp (callSpec settings) Q E calls := by
  induction left using Nat.strong_induction_on generalizing calls with
  | _ left ih =>
    unfold callWithRetries
    rw [Program.wp_bind, Program.wp_attempt]
    refine wp_attempt h.unrefused h.may (h.fetches_le hasked) ?_ ?_ ?_
    · intro now posted response text raw hok hraw
      exact hQ _ _ _ (h.replied hok hraw)
    · intro now failed failure hfailed
      refine wp_afterFailure h hfailed (fun left' calls' hleft hready ↦ ?_) hE
      subst hleft
      exact ih left' (Nat.lt_succ_self left') hready
    · intro error calls' hends
      cases error with
      | attemptFailure failure => exact absurd rfl (hends.2 failure)
      | domain error => exact hE _ _ hends
      | «foreign» name message => exact hE _ _ hends

theorem wp_repair {request : LlmCompletionRequest} {first : RawCompletion}
    {Q : LlmCompletion → History → Prop} {E : Thrown → History → Prop}
    (h : Replied settings deadline left 0 first calls) (hjson : parseJsonContent first.content = none)
    (hQ : ∀ completion calls', Unrefused calls' → Q completion calls')
    (hE : ∀ error calls', Ends error calls' → E error calls') :
    (repair settings request deadline first left).wp (callSpec settings) Q E calls := by
  unfold repair
  rw [Program.wp_bind]
  refine wp_plain id (by simp) h.unrefused (fun now ↦ ?_) hE
  have hnow : Unrefused (calls ++ [⟨.now, .ok now⟩]) := h.unrefused.append_one harmless_ok
  dsimp only
  split_ifs with hspent
  · exact hE _ _ hnow.ends_domain
  obtain ⟨start, earlier, posted, response, text, rfl, rfl, hok, hraw⟩ := h.read
  have hbudget := h.budget
  have hasked := h.asked_eq
  have hready : Ready settings (start + timeoutMs settings) left 1
      (⟨.now, .ok start⟩ :: earlier ++ [⟨.fetch posted, .ok response⟩, ⟨.readText, .ok text⟩] ++
        [⟨.now, .ok now⟩]) := by
    refine ⟨hnow, .inr (.inr ?_), ⟨start, _, rfl, rfl⟩, ?_, ?_, fun hone ↦ absurd hone one_ne_zero⟩
    · refine ⟨start, earlier, posted, response, text, first, now, by simp, hok, hraw, hjson, ?_, ?_⟩
      · omega
      · exact (h.retried rfl).append (by simp [Hookless])
    · simpa [isSleep] using hbudget
    · simpa [isSleep, isFetch] using hasked
  rw [Program.wp_bind]
  refine wp_callWithRetries le_rfl hready (fun raw left' calls' hreplied ↦ ?_) hE
  dsimp only
  cases parseJsonContent raw.content with
  | none => exact hE _ _ hreplied.unrefused.ends_domain
  | some json => exact hQ _ _ hreplied.unrefused

theorem wp_complete (settings : Settings) (request : LlmCompletionRequest) :
    (complete settings request).wp (callSpec settings) (fun _ calls ↦ Unrefused calls) Ends [] := by
  have hempty : Unrefused [] := fun error hmem ↦ by cases hmem
  unfold complete
  split_ifs
  · exact hempty.ends_domain
  rw [Program.wp_bind]
  refine wp_plain id (by simp) hempty (fun now ↦ ?_) fun _ _ hends ↦ hends
  have hnow : Unrefused [⟨.now, .ok now⟩] := hempty.append_one harmless_ok
  have hready : Ready settings (now + timeoutMs settings) (maxRetries settings) 0 [⟨.now, .ok now⟩] := by
    refine ⟨hnow, .inl rfl, ⟨now, [], rfl, rfl⟩, by simp [isSleep], by simp [isSleep, isFetch], ?_⟩
    have hnone : OnlyRetries settings [] := fun earlier answer hearlier ↦
      absurd (List.prefix_nil.mp hearlier) (by simp)
    have hstart : Hookless [⟨.now, .ok now⟩] := by simp [Hookless]
    exact fun _ ↦ ⟨hnone.append hstart, .inl rfl⟩
  rw [Program.wp_bind]
  refine wp_callWithRetries zero_le_one hready (fun raw left calls hreplied ↦ ?_) fun _ _ hends ↦ hends
  dsimp only
  cases hjson : parseJsonContent raw.content with
  | none =>
    exact wp_repair hreplied hjson (fun _ _ hunrefused ↦ hunrefused) fun _ _ hends ↦ hends
  | some json => exact hreplied.unrefused

/-- Requests are few if few come before each of them. -/
theorem fetches_le_of_each {bound : ℕ} (h : ∀ before posted answer,
    before ++ [⟨.fetch posted, answer⟩] <+: calls → fetches before ≤ bound) :
    fetches calls ≤ bound + 1 := by
  induction calls using List.reverseRecOn with
  | nil => simp
  | append_singleton calls call ih =>
    obtain ⟨op, answer⟩ := call
    have hcalls := ih fun before posted answer' hbefore ↦
      h before posted answer' (hbefore.trans (List.prefix_append _ _))
    cases op with
    | fetch posted =>
      have := h calls posted answer List.prefix_rfl
      simp [isFetch]
      omega
    | _ => simpa [isFetch] using hcalls

theorem wp_generate (settings : Settings) (input : GenerateSuggestionInput) :
    (generate settings input).wp (callSpec settings) (fun _ calls ↦ Unrefused calls) Ends [] := by
  unfold generate
  rw [Program.wp_bind]
  refine Program.wp_mono (fun completion calls hcalls ↦ ?_) (fun _ _ hends ↦ hends)
    (wp_complete settings _)
  split
  · exact hcalls
  · exact hcalls.ends_domain

/-- A suggestion takes no more requests than its completion may make. -/
theorem generate_fetches_le {input : GenerateSuggestionInput} {left : Async GenerateSuggestionOutput}
    (h : (generate settings input).Goes calls left) (hforeign : ∀ call ∈ calls, Foreign call) :
    fetches calls ≤ maxRetries settings + 2 := by
  have hrules := (h.obeys hforeign (wp_generate settings input)).1
  refine fetches_le_of_each fun before posted answer hbefore ↦ ?_
  obtain ⟨after, rfl⟩ := hbefore
  exact (hrules before ⟨.fetch posted, answer⟩ after (by simp)).2.2

end Retries

/-- What a completion obeys, read off its calls. -/
theorem complete_obeys {settings : Settings} {request : LlmCompletionRequest} {calls : History}
    {left : Async LlmCompletion} (h : (complete settings request).Goes calls left)
    (hforeign : ∀ call ∈ calls, Foreign call) :
    (∀ before call, before ++ [call] <+: calls → rule settings before call.1) ∧
      left.wp (callSpec settings) (fun _ calls ↦ Unrefused calls) Ends calls := by
  obtain ⟨hrules, hleft⟩ := h.obeys hforeign (wp_complete settings request)
  refine ⟨fun before call hbefore ↦ ?_, hleft⟩
  obtain ⟨after, rfl⟩ := hbefore
  exact hrules before call after (by simp)

/-- Settings without a configuration, with texts read as two and as no date. -/
def plainSettings : Settings :=
  ⟨some (Text.of "secret"), none, none, none, none, none, none, fun _ ↦ .finite 2, fun _ ↦ .nan⟩

def plainRequest : LlmCompletionRequest := ⟨[], [], ⟨[], .null⟩, none⟩

def plainPost (now : ℤ) : ChatRequest :=
  chatRequest plainSettings plainRequest (firstMessages plainRequest) 60000 now

def refused : Thrown := .foreign none (Text.of "quota")

/-- A rate-limited attempt, the wait it asks for, and a refused hook. -/
def limitedThenRefused : History :=
  [⟨.now, .ok 0⟩, ⟨.beforeAttempt, .ok ()⟩, ⟨.now, .ok 0⟩,
    ⟨.fetch (plainPost 0), .ok ⟨429, some (Text.of "2")⟩⟩, ⟨.now, .ok 7⟩, ⟨.sleep (2 * 1000), .ok ()⟩,
    ⟨.beforeAttempt, .error refused⟩]

/-- What the rate-limited attempt throws. -/
def limited : AttemptFailure :=
  ⟨.rateLimited (Text.of "The AI provider is rate-limited") (some 2), .rateLimit, some 2⟩

theorem goes_await (op : Op) (answer : Ans op) : (await op).Goes [⟨op, .ok answer⟩] (.pure answer) :=
  .call (.refl _)

theorem goes_limited : (attempt plainSettings plainRequest (firstMessages plainRequest) 60000).Goes
    [⟨.beforeAttempt, .ok ()⟩, ⟨.now, .ok 0⟩, ⟨.fetch (plainPost 0), .ok ⟨429, some (Text.of "2")⟩⟩]
    (.throw (.attemptFailure limited)) := by
  refine Program.Goes.bind (goes_await .beforeAttempt ()) ?_
  refine Program.Goes.bind (goes_await .now 0) ?_
  refine Program.Goes.bind (Program.goes_attempt_perform.mpr rfl) ?_
  have hmap : mapStatus plainSettings (some (429 : ℕ)) (some (Text.of "2")) = .pure limited := by
    have hheader : parseRetryAfter plainSettings (some (Text.of "2")) = .pure (some 2) := rfl
    simp only [mapStatus, Nat.cast_ofNat, ↓reduceIte, hheader]
    rfl
  change (throwFailure (mapStatus plainSettings (some (429 : ℕ)) (some (Text.of "2"))) :
    Async RawCompletion).Goes [] _
  rw [hmap]
  exact .refl _

theorem goes_limitedThenRefused :
    (complete plainSettings plainRequest).Goes limitedThenRefused (.throw refused) := by
  refine Program.Goes.bind (goes_await .now 0) ?_
  have hretries : maxRetries plainSettings = 1 := by decide
  refine Program.Goes.bind_throw ?_
  rw [hretries]
  unfold callWithRetries
  refine Program.Goes.bind (Program.Goes.attempt_throw goes_limited) ?_
  have hdelay : (retryDelayMs limited 60000 1).Goes [⟨.now, .ok 7⟩] (.pure (some (2 * 1000))) := by
    refine Program.Goes.bind (goes_await .now 7) ?_
    simp only [limited, ↓reduceIte, maxRetryAfterSeconds]
    norm_num [fitting, minTimeAfterWaitMs]
    exact .refl _
  refine Program.Goes.bind hdelay ?_
  refine Program.Goes.bind (goes_await (.sleep (2 * 1000)) ()) ?_
  unfold callWithRetries
  have hhook : (await .beforeAttempt).Goes [⟨.beforeAttempt, .error refused⟩] (.throw refused) :=
    .call (.refl _)
  dsimp only
  exact Program.Goes.bind (Program.Goes.attempt_throw (Program.Goes.bind_throw hhook)) (.refl _)

theorem foreign_limitedThenRefused : ∀ call ∈ limitedThenRefused, Foreign call := by
  intro call hcall failure herror
  simp only [limitedThenRefused, List.mem_cons, List.not_mem_nil, or_false] at hcall
  rcases hcall with rfl | rfl | rfl | rfl | rfl | rfl | rfl <;> cases herror

/-- However its calls go, a completion makes at most two requests beyond its retries, each right after
a hook of its own that was called for a reason; it stops with the error of a hook that throws, and no
failed attempt escapes. -/
theorem complete_attempts {settings : Settings} {request : LlmCompletionRequest} {calls : History}
    {left : Async LlmCompletion} (h : (complete settings request).Goes calls left)
    (hforeign : ∀ call ∈ calls, Foreign call) :
    fetches calls ≤ maxRetries settings + 2 ∧
      (∀ before posted answer, before ++ [⟨.fetch posted, answer⟩] <+: calls →
        ∃ earlier now, before = earlier ++ [⟨.beforeAttempt, .ok ()⟩, ⟨.now, .ok now⟩] ∧
          MayAttempt settings earlier) ∧
      (∀ before error after, calls = before ++ ⟨.beforeAttempt, .error error⟩ :: after →
        after = [] ∧ left = .throw error) ∧
      ∀ failure, left ≠ .throw (.attemptFailure failure) := by
  obtain ⟨hrules, hleft⟩ := complete_obeys h hforeign
  refine ⟨?_, fun before posted answer hbefore ↦ ?_, fun before error after heq ↦ ?_, ?_⟩
  · exact fetches_le_of_each fun before posted answer hbefore ↦ (hrules before _ hbefore).2.2
  · obtain ⟨-, ⟨earlier, now, rfl⟩, -⟩ := hrules before _ hbefore
    refine ⟨earlier, now, rfl, ?_⟩
    have hhook : earlier ++ [⟨.beforeAttempt, .ok ()⟩] <+: calls := by
      refine List.IsPrefix.trans ⟨[⟨.now, .ok now⟩, ⟨.fetch posted, answer⟩], ?_⟩ hbefore
      simp
    exact (hrules earlier _ hhook).2
  · have hmem : (⟨.beforeAttempt, .error error⟩ : Call Ans Thrown) ∈ calls := by simp [heq]
    constructor
    · cases after with
      | nil => rfl
      | cons call after =>
        have hcall := rule_unrefused (hrules (before ++ [⟨.beforeAttempt, .error error⟩]) call
          ⟨after, by simp [heq]⟩)
        exact absurd (by simp) (hcall error)
    · cases left with
      | pure completion => exact absurd hmem (hleft error)
      | throw error' => exact congrArg Program.throw (hleft.1 error hmem)
      | call op next => exact absurd hmem (rule_unrefused (hleft (.lost error)).1 error)
  · rintro failure rfl
    exact hleft.2 failure rfl

theorem complete_attempts_limitedThenRefused :
    fetches limitedThenRefused ≤ maxRetries plainSettings + 2 ∧
      (∀ before posted answer, before ++ [⟨.fetch posted, answer⟩] <+: limitedThenRefused →
        ∃ earlier now, before = earlier ++ [⟨.beforeAttempt, .ok ()⟩, ⟨.now, .ok now⟩] ∧
          MayAttempt plainSettings earlier) ∧
      (∀ before error after,
        limitedThenRefused = before ++ ⟨.beforeAttempt, .error error⟩ :: after →
          after = [] ∧ (Program.throw refused : Async LlmCompletion) = .throw error) ∧
      ∀ failure, (Program.throw refused : Async LlmCompletion) ≠ .throw (.attemptFailure failure) :=
  complete_attempts goes_limitedThenRefused foreign_limitedThenRefused

end MemoFlowApi.OpenRouter
