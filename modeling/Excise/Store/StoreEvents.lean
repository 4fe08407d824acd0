import Excise.Store.StoreHandle

/-!
# What the store thread reports

The owner's end of the two queues. A poll takes one result and makes an event of it; when the
thread is gone and all it reported was taken, one failure says so. A publication is installed by the
owner, in the place of the map it read until then.
-/

namespace Excise
set_option autoImplicit false

def Publication.generation : Publication → ScanGeneration
  | .Published published => published.manifest.generation
  | .SummaryOnly summary => summary.manifest.generation

/-- A text the owner keeps of a failure, by where it comes from. -/
inductive StoreFailure where
  | store (error : ScanStoreError)
  | unavailable (error : StoreUnavailable)
  | stopped
  | text (message : String)

inductive StoreEvent where
  | AdmissionFailed (error : ScanStoreError)
  | ProvisionalPage (folder : RelativePath) (page : Except ScanStoreError ScanPage)
  | Published (result : Except ScanStoreError Publication)
  | Overlaid (result : Except ScanStoreError Publication)
  | Failure (failure : StoreFailure)

/-- What `next_result` finds: a result, or that the thread is gone. -/
inductive ThreadNews where
  | told (result : StoreResult)
  | stopped

/-- A command that leaves it to others which generation is open. -/
def StoreCommand.isNeutral : StoreCommand → Bool
  | .Notes _ | .Admit _ _ | .ProvisionalPage _ => true
  | _ => false

/-- What a result answers to a publication. -/
def StoreResult.answer? : StoreResult → Option (Except ScanStoreError Publication)
  | .Published answer | .Overlaid answer => some answer
  | _ => none

namespace StoreHandle

/-- The handle of a session whose scan has begun, its thread started. -/
def started (generation : ScanGeneration) : StoreHandle where
  published := none
  summaryOnly := none
  accepting := some generation
  latestGeneration := some generation
  notes := .empty
  publicationsInFlight := 0
  provisional := ⟨false, none⟩
  unavailableReported := false
  backend := .Threaded [] [] false

/-- None when the numbers are exhausted. -/
def nextGeneration (h : StoreHandle) : Option ScanGeneration :=
  match h.latestGeneration with
  | none => some ⟨0⟩
  | some latest => if latest.value.toNat + 1 < 2 ^ 64 then some ⟨latest.value + 1⟩ else none

def isSummaryOnly (h : StoreHandle) : Bool := h.summaryOnly.isSome

def install (h : StoreHandle) : Publication → StoreHandle
  | .Published published => { h with summaryOnly := none, published := some published }
  | .SummaryOnly summary => { h with summaryOnly := some summary }

def notePublication (h : StoreHandle) : Except ScanStoreError Publication → StoreHandle
  | .error _ => h
  | .ok publication => h.noteGeneration publication.generation

def nextResult (h : StoreHandle) : StoreHandle × Option ThreadNews :=
  match h.backend with
  | .Inline engine (result :: results) =>
    ({ h with backend := .Inline engine results }, some (.told result))
  | .Threaded commands (result :: results) disconnected =>
    ({ h with backend := .Threaded commands results disconnected }, some (.told result))
  | .Threaded _ [] true =>
    if h.unavailableReported then (h, none)
    else ({ h with unavailableReported := true }, some .stopped)
  | .Inline _ [] | .Threaded _ [] false | .Stopped => (h, none)

/-- A live page was answered: the request that waited for it goes out. A failure to send it is
left to the next command. -/
def pageAnswered (env : EngineIo) (h : StoreHandle) : StoreHandle :=
  match h.provisional.wanted with
  | none => { h with provisional := ⟨false, none⟩ }
  | some (folder, limit) =>
    match requestProvisionalPage env folder limit { h with provisional := ⟨false, none⟩ } with
    | .ok () h | .error _ h => h

/-- A publication was answered. -/
def publicationAnswered (h : StoreHandle) (result : Except ScanStoreError Publication) :
    StoreHandle :=
  { h with publicationsInFlight := h.publicationsInFlight - 1 }.notePublication result

def receive (env : EngineIo) (h : StoreHandle) : StoreResult → StoreHandle × StoreEvent
  | .AdmissionFailed error => (h, .AdmissionFailed error)
  | .ProvisionalPage folder page => (h.pageAnswered env, .ProvisionalPage folder page)
  | .Published result => (h.publicationAnswered result, .Published result)
  | .Overlaid result => (h.publicationAnswered result, .Overlaid result)
  | .Failure error => (h, .Failure (.store error))

def poll (env : EngineIo) (h : StoreHandle) : StoreHandle × Option StoreEvent :=
  match h.nextResult with
  | (h, none) => (h, none)
  | (h, some .stopped) => (h, some (.Failure .stopped))
  | (h, some (.told result)) =>
    let received := h.receive env result
    (received.1, some received.2)

/-! ## The queues of a thread -/

/-- Commands the thread has not taken. -/
def queued (h : StoreHandle) : List StoreCommand :=
  match h.backend with
  | .Threaded commands _ _ => commands
  | .Inline _ _ | .Stopped => []

/-- Results the owner has not taken. -/
def told (h : StoreHandle) : List StoreResult :=
  match h.backend with
  | .Threaded _ results _ => results
  | .Inline _ _ | .Stopped => []

def gone (h : StoreHandle) : Bool :=
  match h.backend with
  | .Threaded _ _ disconnected => disconnected
  | .Inline _ _ | .Stopped => true

def threaded (h : StoreHandle) : Bool :=
  match h.backend with
  | .Threaded _ _ _ => true
  | .Inline _ _ | .Stopped => false

theorem backend_eq {h : StoreHandle} (ht : h.threaded = true) :
    h.backend = .Threaded h.queued h.told h.gone := by
  unfold threaded queued told gone at *
  cases hb : h.backend with
  | Threaded commands results disconnected => rfl
  | Inline engine results =>
    rw [hb] at ht
    cases ht
  | Stopped =>
    rw [hb] at ht
    cases ht

/-- What a call leaves alone beside the queue and the notes. -/
structure SameRecords (h h' : StoreHandle) : Prop where
  published : h'.published = h.published
  summaryOnly : h'.summaryOnly = h.summaryOnly
  latest : h'.latestGeneration = h.latestGeneration
  reported : h'.unavailableReported = h.unavailableReported

theorem SameRecords.refl (h : StoreHandle) : SameRecords h h := ⟨rfl, rfl, rfl, rfl⟩

theorem SameRecords.trans {a b c : StoreHandle} (h : SameRecords a b) (h' : SameRecords b c) :
    SameRecords a c :=
  ⟨h'.published.trans h.published, h'.summaryOnly.trans h.summaryOnly, h'.latest.trans h.latest,
    h'.reported.trans h.reported⟩

/-- `h'` is `h` with `commands` behind its queue. -/
structure Queues (h h' : StoreHandle) (commands : List StoreCommand) : Prop where
  threaded : h'.threaded = true
  queued : h'.queued = h.queued ++ commands
  told : h'.told = h.told
  gone : h'.gone = h.gone
  same : SameRecords h h'

theorem Queues.refl {h : StoreHandle} (ht : h.threaded = true) : Queues h h [] :=
  ⟨ht, (List.append_nil _).symm, rfl, rfl, .refl h⟩

theorem Queues.trans {a b c : StoreHandle} {cs ds : List StoreCommand} (h : Queues a b cs)
    (h' : Queues b c ds) : Queues a c (cs ++ ds) :=
  ⟨h'.threaded, by rw [h'.queued, h.queued, List.append_assoc], h'.told.trans h.told,
    h'.gone.trans h.gone, h.same.trans h'.same⟩

/-- Fields of no queue may change behind what a call queued. -/
theorem Queues.after {a b c : StoreHandle} {cs : List StoreCommand} (h : Queues a b cs)
    (hbackend : c.backend = b.backend) (hsame : SameRecords b c) : Queues a c cs := by
  have hq : c.queued = b.queued := by unfold StoreHandle.queued; rw [hbackend]
  have htold : c.told = b.told := by unfold StoreHandle.told; rw [hbackend]
  have hgone : c.gone = b.gone := by unfold StoreHandle.gone; rw [hbackend]
  have hthread : c.threaded = b.threaded := by unfold StoreHandle.threaded; rw [hbackend]
  exact ⟨hthread.trans h.threaded, hq.trans h.queued, htold.trans h.told, hgone.trans h.gone,
    h.same.trans hsame⟩

theorem Queues.before {a b c : StoreHandle} {cs : List StoreCommand} (h : Queues b c cs)
    (hsame : SameRecords a b) (hbackend : b.backend = a.backend) : Queues a c cs := by
  have hq : b.queued = a.queued := by unfold StoreHandle.queued; rw [hbackend]
  have htold : b.told = a.told := by unfold StoreHandle.told; rw [hbackend]
  have hgone : b.gone = a.gone := by unfold StoreHandle.gone; rw [hbackend]
  exact ⟨h.threaded, by rw [h.queued, hq], h.told.trans htold, h.gone.trans hgone,
    hsame.trans h.same⟩

variable {env : EngineIo} {command : StoreCommand} {h h' : StoreHandle} {e : StoreUnavailable}

theorem queues_sendOne (ht : h.threaded = true) (hs : sendOne env command h = .ok () h') :
    Queues h h' [command] ∧ h.gone = false := by
  unfold sendOne at hs
  rw [backend_eq ht] at hs
  dsimp only at hs
  split at hs
  · cases hs
  · split at hs
    · cases hs
    · rename_i hgone _
      cases hs
      exact ⟨⟨rfl, rfl, rfl, rfl, ⟨rfl, rfl, rfl, rfl⟩⟩, Bool.eq_false_iff.mpr hgone⟩

/-- A call of the handle queues its command behind the notes, or at most the notes. -/
theorem queues_send (ht : h.threaded = true) :
    (send env command h = .ok () h' → h.gone = false ∧
      ∃ notes : List StoreCommand, (∀ c ∈ notes, c.isNeutral = true) ∧
        Queues h h' (notes ++ [command])) ∧
      (send env command h = .error e h' → ∃ notes : List StoreCommand,
        (∀ c ∈ notes, c.isNeutral = true) ∧ Queues h h' notes) := by
  unfold send
  split
  · refine ⟨fun hs => ?_, fun hs => ?_⟩
    · obtain ⟨hq, hgone⟩ := queues_sendOne ht hs
      exact ⟨hgone, [], fun _ hc => absurd hc List.not_mem_nil, hq⟩
    · rw [sendOne_error hs]
      exact ⟨[], fun _ hc => absurd hc List.not_mem_nil, .refl ht⟩
  · have hnotes : ∀ c ∈ [StoreCommand.Notes h.notes], c.isNeutral = true := by
      intro c hc
      rw [List.mem_singleton.mp hc]
      rfl
    have hsame : SameRecords h { h with notes := .empty } := ⟨rfl, rfl, rfl, rfl⟩
    split
    · rename_i error h₁ hfirst
      refine ⟨fun hs => ?_, fun hs => ?_⟩
      · cases hs
      · cases hs
        rw [sendOne_error hfirst]
        exact ⟨[], fun _ hc => absurd hc List.not_mem_nil, (Queues.refl ht).after rfl hsame⟩
    · rename_i h₁ hfirst
      obtain ⟨hq, hgone⟩ := queues_sendOne (h := { h with notes := .empty }) ht hfirst
      have hq := hq.before hsame rfl
      refine ⟨fun hs => ?_, fun hs => ?_⟩
      · obtain ⟨hq', -⟩ := queues_sendOne hq.threaded hs
        exact ⟨hgone, [.Notes h.notes], hnotes, hq.trans hq'⟩
      · rw [sendOne_error hs]
        exact ⟨[.Notes h.notes], hnotes, hq⟩

/-- A call of which only neutral commands stay behind. -/
def QueuesNeutral (h h' : StoreHandle) : Prop :=
  ∃ commands, Queues h h' commands ∧ ∀ c ∈ commands, c.isNeutral = true

theorem QueuesNeutral.refl (ht : h.threaded = true) : QueuesNeutral h h :=
  ⟨[], .refl ht, fun _ hc => absurd hc List.not_mem_nil⟩

/-- A neutral command stays behind with its notes, sent or refused. -/
theorem queuesNeutral_send (ht : h.threaded = true) (hcommand : command.isNeutral = true) :
    (send env command h = .ok () h' → QueuesNeutral h h') ∧
      (send env command h = .error e h' → QueuesNeutral h h') := by
  refine ⟨fun hs => ?_, fun hs => ?_⟩
  · obtain ⟨-, notes, hnotes, hq⟩ := (queues_send (e := ⟨""⟩) ht).1 hs
    refine ⟨notes ++ [command], hq, fun c hc => ?_⟩
    rcases List.mem_append.mp hc with hc | hc
    · exact hnotes c hc
    · rw [List.mem_singleton.mp hc]
      exact hcommand
  · obtain ⟨notes, hnotes, hq⟩ := (queues_send ht).2 hs
    exact ⟨notes, hq, hnotes⟩

theorem QueuesNeutral.before {a b c : StoreHandle} (h : QueuesNeutral b c) (hsame : SameRecords a b)
    (hbackend : b.backend = a.backend) : QueuesNeutral a c := by
  obtain ⟨commands, hq, hneutral⟩ := h
  exact ⟨commands, hq.before hsame hbackend, hneutral⟩

theorem QueuesNeutral.after {a b c : StoreHandle} (h : QueuesNeutral a b) (hsame : SameRecords b c)
    (hbackend : c.backend = b.backend) : QueuesNeutral a c := by
  obtain ⟨commands, hq, hneutral⟩ := h
  exact ⟨commands, hq.after hbackend hsame, hneutral⟩

/-- A request for a live page leaves neutral commands only, sent or refused. -/
theorem queues_request {folder : RelativePath} {limit : Nat} (ht : h.threaded = true) :
    (requestProvisionalPage env folder limit h = .ok () h' → QueuesNeutral h h') ∧
      (requestProvisionalPage env folder limit h = .error e h' → QueuesNeutral h h') := by
  have hself (p : ProvisionalRequests) : SameRecords h { h with provisional := p } :=
    ⟨rfl, rfl, rfl, rfl⟩
  unfold requestProvisionalPage
  split
  · refine ⟨fun hs => ?_, fun hs => ?_⟩
    · cases hs
      exact (QueuesNeutral.refl ht).after (hself _) rfl
    · cases hs
  · have hsend {h₁ : StoreHandle} :
        (send env (.ProvisionalPage ⟨folder, none, limit⟩)
          { h with provisional := { h.provisional with inFlight := true } } = .ok () h₁ →
          QueuesNeutral { h with provisional := { h.provisional with inFlight := true } } h₁) ∧
        (send env (.ProvisionalPage ⟨folder, none, limit⟩)
          { h with provisional := { h.provisional with inFlight := true } } = .error e h₁ →
          QueuesNeutral { h with provisional := { h.provisional with inFlight := true } } h₁) :=
      queuesNeutral_send ht rfl
    refine ⟨fun hs => ?_, fun hs => ?_⟩ <;> split at hs
    · rename_i h₁ hok
      cases hs
      exact (hsend.1 hok).before (hself _) rfl
    · cases hs
    · cases hs
    · rename_i error h₁ herror
      cases hs
      exact ((hsend.2 herror).before (hself _) rfl).after ⟨rfl, rfl, rfl, rfl⟩ rfl

/-- The request that waited for an answer goes out, or is dropped. -/
theorem queues_pageAnswered (ht : h.threaded = true) : QueuesNeutral h (h.pageAnswered env) := by
  have hself : SameRecords h { h with provisional := ⟨false, none⟩ } := ⟨rfl, rfl, rfl, rfl⟩
  unfold pageAnswered
  split
  · exact (QueuesNeutral.refl ht).after hself rfl
  · rename_i folder limit _
    split
    · rename_i h₁ hs
      exact ((queues_request (e := ⟨""⟩) (h := { h with provisional := ⟨false, none⟩ }) ht).1
        hs).before hself rfl
    · rename_i error h₁ hs
      exact ((queues_request (h := { h with provisional := ⟨false, none⟩ }) ht).2 hs).before hself rfl

/-- A call that goes on after its command was taken. -/
theorem queues_match (env : EngineIo) (command : StoreCommand) (h' : StoreHandle)
    (e : StoreUnavailable) (f : StoreHandle → StoreHandle) (ht : h.threaded = true) :
    ((match send env command h with
      | .error error h => .error error h
      | .ok () h => .ok () (f h) : EStateM.Result StoreUnavailable StoreHandle Unit) = .ok () h' →
      h.gone = false ∧ ∃ h₁ notes, h' = f h₁ ∧ (∀ c ∈ notes, c.isNeutral = true) ∧
        Queues h h₁ (notes ++ [command])) ∧
    ((match send env command h with
      | .error error h => .error error h
      | .ok () h => .ok () (f h) : EStateM.Result StoreUnavailable StoreHandle Unit) = .error e h' →
      QueuesNeutral h h') := by
  refine ⟨fun hs => ?_, fun hs => ?_⟩
  · split at hs
    · cases hs
    · rename_i h₁ hsend
      cases hs
      obtain ⟨hgone, notes, hnotes, hq⟩ := (queues_send (e := ⟨""⟩) ht).1 hsend
      exact ⟨hgone, h₁, notes, rfl, hnotes, hq⟩
  · obtain ⟨notes, hnotes, hq⟩ := (queues_send ht).2 (error_of_match hs)
    exact ⟨notes, hq, hnotes⟩

/-- An overlay asked for is of the map installed, and its number is noted. -/
theorem queues_beginOverlay {detached : PublishedGeneration → Bool} {generation : ScanGeneration}
    {removed : RelativePath} {later : List RelativePath} {verifyRoot : Bool} (ht : h.threaded = true) :
    (beginOverlay env detached generation removed later verifyRoot h = .ok () h' →
      h.gone = false ∧ ∃ p h₁ notes, h.published = some p ∧ h' = h₁.noteGeneration generation ∧
        (∀ c ∈ notes, c.isNeutral = true) ∧ Queues h h₁
          (notes ++ [.Overlay ⟨generation, removed, later, verifyRoot, p.overlayBase⟩])) ∧
    (beginOverlay env detached generation removed later verifyRoot h = .error e h' →
      QueuesNeutral h h') := by
  unfold beginOverlay
  cases hbase : h.overlayBase detached with
  | none =>
    refine ⟨fun hs => (by cases hs), fun hs => ?_⟩
    cases hs
    exact .refl ht
  | some base =>
    obtain ⟨p, hp, rfl⟩ := Option.map_eq_some_iff.mp hbase
    have hmatch := queues_match env
      (.Overlay ⟨generation, removed, later, verifyRoot, p.overlayBase⟩) h' e
      (fun h => { h with
        accepting := none
        publicationsInFlight := h.publicationsInFlight + 1 }.noteGeneration generation) ht
    refine ⟨fun hs => ?_, hmatch.2⟩
    obtain ⟨hgone, h₁, notes, rfl, hnotes, hq⟩ := hmatch.1 hs
    exact ⟨hgone, p, { h₁ with
      accepting := none
      publicationsInFlight := h₁.publicationsInFlight + 1 }, notes,
      (Option.filter_eq_some_iff.mp hp).1, rfl, hnotes, hq.after rfl ⟨rfl, rfl, rfl, rfl⟩⟩

theorem queues_beginPublication (ht : h.threaded = true) :
    (beginPublication env h = .ok () h' → h.gone = false ∧ ∃ notes,
      (∀ c ∈ notes, c.isNeutral = true) ∧ Queues h h' (notes ++ [.Publish])) ∧
    (beginPublication env h = .error e h' → QueuesNeutral h h') := by
  have hmatch := queues_match env .Publish h' e (fun h => { h with
      accepting := none, publicationsInFlight := h.publicationsInFlight + 1 }) ht
  refine ⟨fun hs => ?_, hmatch.2⟩
  obtain ⟨hgone, h₁, notes, rfl, hnotes, hq⟩ := hmatch.1 hs
  exact ⟨hgone, notes, hnotes, hq.after rfl ⟨rfl, rfl, rfl, rfl⟩⟩

theorem queues_beginGeneration {generation : ScanGeneration} (ht : h.threaded = true)
    (hs : beginGeneration env generation h = .ok () h') :
    h.gone = false ∧ ∃ h₁ notes, h' = h₁.noteGeneration generation ∧
      (∀ c ∈ notes, c.isNeutral = true) ∧
      Queues h h₁ (notes ++ [.BeginGeneration generation]) := by
  have hmatch := queues_match env (.BeginGeneration generation) h' ⟨""⟩
    (fun h => { h with accepting := some generation }.noteGeneration generation) ht
  obtain ⟨hgone, h₁, notes, rfl, hnotes, hq⟩ := hmatch.1 hs
  exact ⟨hgone, { h₁ with accepting := some generation }, notes, rfl, hnotes,
    hq.after rfl ⟨rfl, rfl, rfl, rfl⟩⟩

theorem queues_cancelActive (ht : h.threaded = true) (hs : cancelActive env h = .ok () h') :
    h.gone = false ∧
      ∃ notes, (∀ c ∈ notes, c.isNeutral = true) ∧ Queues h h' (notes ++ [.CancelActive]) := by
  obtain ⟨hgone, notes, hnotes, hq⟩ :=
    (queues_send (h := { h with accepting := none }) (e := ⟨""⟩) ht).1 hs
  exact ⟨hgone, notes, hnotes, hq.before ⟨rfl, rfl, rfl, rfl⟩ rfl⟩

theorem queues_admitBatch {lease : WorkLease} {runs : List FactRun} (ht : h.threaded = true) :
    (admitBatch env lease runs h = .ok () h' → QueuesNeutral h h') ∧
      (admitBatch env lease runs h = .error e h' → QueuesNeutral h h') :=
  queuesNeutral_send ht rfl

/-! ## Polls -/

/-- The oldest result is taken. -/
structure Takes (h h' : StoreHandle) (result : StoreResult) : Prop where
  threaded : h'.threaded = true
  told : h.told = result :: h'.told
  queued : h'.queued = h.queued
  gone : h'.gone = h.gone
  published : h'.published = h.published
  reported : h'.unavailableReported = h.unavailableReported
  latest : ∀ l, h.latestGeneration = some l → ∃ l', h'.latestGeneration = some l' ∧ l ≤ l'

/-- What a poll may do: nothing, report the end of the thread, or take the oldest result. -/
inductive Polls (env : EngineIo) (h : StoreHandle) : StoreHandle × Option StoreEvent → Prop where
  | idle : Polls env h (h, none)
  | stopped (told : h.told = []) (gone : h.gone = true) :
      Polls env h ({ h with unavailableReported := true }, some (.Failure .stopped))
  | admissionFailed {h' : StoreHandle} {error : ScanStoreError}
      (takes : Takes h h' (.AdmissionFailed error)) : Polls env h (h', some (.AdmissionFailed error))
  | page {h₁ h' : StoreHandle} {folder : RelativePath} {page : Except ScanStoreError ScanPage}
      (takes : Takes h h₁ (.ProvisionalPage folder page)) (next : QueuesNeutral h₁ h') :
      Polls env h (h', some (.ProvisionalPage folder page))
  | published {h' : StoreHandle} {answer : Except ScanStoreError Publication}
      (takes : Takes h h' (.Published answer)) : Polls env h (h', some (.Published answer))
  | overlaid {h' : StoreHandle} {answer : Except ScanStoreError Publication}
      (takes : Takes h h' (.Overlaid answer)) : Polls env h (h', some (.Overlaid answer))
  | failure {h' : StoreHandle} {error : ScanStoreError} (takes : Takes h h' (.Failure error)) :
      Polls env h (h', some (.Failure (.store error)))

theorem latest_noteGeneration (g : ScanGeneration) {l : ScanGeneration}
    (hl : h.latestGeneration = some l) :
    (h.noteGeneration g).latestGeneration = some (max l g) := by
  unfold noteGeneration
  rw [hl]

theorem polls_poll (env : EngineIo) (ht : h.threaded = true) : Polls env h (h.poll env) := by
  have hbackend := backend_eq ht
  cases htold : h.told with
  | nil =>
    rw [htold] at hbackend
    unfold poll nextResult
    rw [hbackend]
    cases hgone : h.gone with
    | false => exact .idle
    | true =>
      dsimp only
      split
      · rename_i h₁ hnext
        split at hnext
        · cases hnext
          exact .idle
        · cases hnext
      · rename_i h₁ hnext
        split at hnext
        · cases hnext
        · cases hnext
          have hstopped : Polls env h ({ h with unavailableReported := true },
            some (.Failure .stopped)) := .stopped htold hgone
          rw [hbackend, hgone] at hstopped
          exact hstopped
      · rename_i h₁ result hnext
        split at hnext <;> cases hnext
  | cons result results =>
    rw [htold] at hbackend
    have hpoll : h.poll env = ((receive env { h with
        backend := .Threaded h.queued results h.gone } result).1, some (receive env { h with
        backend := .Threaded h.queued results h.gone } result).2) := by
      unfold poll nextResult
      rw [hbackend]
    -- the handle with its oldest result taken, whatever is noted of it
    have htakes {h' : StoreHandle} (hb : h'.backend = .Threaded h.queued results h.gone)
        (hp : h'.published = h.published) (hr : h'.unavailableReported = h.unavailableReported)
        (hl : ∀ l, h.latestGeneration = some l →
          ∃ l', h'.latestGeneration = some l' ∧ l ≤ l') : Takes h h' result := by
      have hq : h'.queued = h.queued := by unfold StoreHandle.queued; rw [hb]; rfl
      have htold' : h'.told = results := by unfold StoreHandle.told; rw [hb]
      have hgone : h'.gone = h.gone := by unfold StoreHandle.gone; rw [hb]; rfl
      have hthreaded : h'.threaded = true := by unfold StoreHandle.threaded; rw [hb]
      exact ⟨hthreaded, by rw [htold, htold'], hq, hgone, hp, hr, hl⟩
    have hplain : Takes h { h with backend := .Threaded h.queued results h.gone } result :=
      htakes rfl rfl rfl fun l hl => ⟨l, hl, le_refl l⟩
    have hanswered (answer : Except ScanStoreError Publication) :
        Takes h ({ h with backend := .Threaded h.queued results h.gone }.publicationAnswered answer)
          result := by
      cases answer with
      | error e => exact htakes rfl rfl rfl fun l hl => ⟨l, hl, le_refl l⟩
      | ok publication =>
        refine htakes rfl rfl rfl fun l hl => ⟨max l publication.generation, ?_, le_max_left _ _⟩
        exact latest_noteGeneration publication.generation hl
    rw [hpoll]
    cases result with
    | AdmissionFailed error => exact .admissionFailed hplain
    | ProvisionalPage folder page => exact .page hplain (queues_pageAnswered rfl)
    | Published answer => exact .published (hanswered answer)
    | Overlaid answer => exact .overlaid (hanswered answer)
    | Failure error => exact .failure hplain

end StoreHandle

end Excise
