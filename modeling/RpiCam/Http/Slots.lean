import RpiCam.Http.Upload
import RpiCam.Lib.Pool
import RpiCam.Lib.Transition
import RpiCam.Lib.UnorderedMap

/-!
# Upload slots

Any number of clients upload at once. `_upload_client` counts the free slots: the first call of a request takes one, and
`post_request_complete` gives it back.

* `Server` : the counter and the `connection_info` of every request that has one;
* `Server.step` : a first call, a later call or the completion of some request;
* `pool`, `pool_step` : the slots are a pool of permits;
* `slots_conserved` : none is lost as long as every first call that takes a slot gets its memory and its post processor;
* `leaked_slot` : one that gets no post processor.

An exception that leaves a call ends the process, with the counter as it is then.
-/

namespace RpiCam.Http

open Transition

structure Server where
  uploadClient : Int
  /-- The requests whose `*con_cls` is not null. -/
  requests : UnorderedMap Nat ConnectionInfo
  /-- An exception has ended the process. -/
  stopped : Bool
  /-- For the record: the first calls that took a slot and got no memory or no post processor. -/
  unprocessed : Nat

inductive ServerAct
  | first (id : Nat) (resources : Resources)
  | call (id : Nat) (call : Call)
  | complete (id : Nat)

namespace Server

def init (uploadClients : Int) : Server := ⟨uploadClients, ∅, false, 0⟩

/-- A first call takes a slot and gets no memory or no post processor. -/
def Unprocessed (s : Server) (resources : Resources) : Prop :=
  0 < s.uploadClient ∧ (resources.info = false ∨ resources.processor = false)

instance (s : Server) (resources : Resources) : Decidable (s.Unprocessed resources) :=
  inferInstanceAs (Decidable (_ ∧ (_ ∨ _)))

def step (s : Server) (a : ServerAct) : Option Server :=
  if s.stopped then none
  else match a with
    | .first id resources =>
      if id ∈ s.requests then none
      else
        let unprocessed := s.unprocessed + if s.Unprocessed resources then 1 else 0
        match programAcceptFirst resources s.uploadClient with
        | .error e => some { s with uploadClient := e.uploadClient, stopped := true, unprocessed }
        | .ok answer =>
          some { s with
            uploadClient := answer.uploadClient
            requests := match answer.conCls with
              | some info => AList.insert id info s.requests
              | none => s.requests
            unprocessed }
    | .call id call =>
      match AList.lookup id s.requests with
      | none => none
      | some info =>
        match programAccept ⟨true, true⟩ s.uploadClient (some info) call with
        | .error e => some { s with uploadClient := e.uploadClient, stopped := true }
        | .ok answer =>
          some { s with
            uploadClient := answer.uploadClient
            requests := AList.insert id (answer.conCls.getD info) s.requests }
    | .complete id =>
      some { s with
        uploadClient := (postRequestComplete s.uploadClient (AList.lookup id s.requests)).1
        requests := AList.erase id s.requests }

def pool (s : Server) : Pool := ⟨s.uploadClient, s.requests.keys.length, s.unprocessed⟩

/-- Every request that has a `connection_info` is an upload with a post processor. -/
def Uploads (s : Server) : Prop :=
  ∀ id info, AList.lookup id s.requests = some info → info.connectionType = .post ∧ info.postprocessor = true

theorem length_insert_of_mem {requests : UnorderedMap Nat ConnectionInfo} {id : Nat} (h : id ∈ requests)
    (info : ConnectionInfo) : (AList.insert id info requests).keys.length = requests.keys.length := by
  have hmem : id ∈ requests.keys := AList.mem_keys.mp h
  rw [AList.keys_insert, List.length_cons, List.length_erase_of_mem hmem]
  have := List.length_pos_of_mem hmem
  omega

theorem uploads_insert {s : Server} (hs : s.Uploads) {id : Nat} {info : ConnectionInfo}
    (hi : info.connectionType = .post ∧ info.postprocessor = true) {id' : Nat} {info' : ConnectionInfo}
    (h : AList.lookup id' (AList.insert id info s.requests) = some info') :
    info'.connectionType = .post ∧ info'.postprocessor = true :=
  UnorderedMap.forall_insert hs hi h

theorem programAccept_later {resources : Resources} {uploadClient : Int} {info : ConnectionInfo} {call : Call}
    {answer : Answer} (h : programAccept resources uploadClient (some info) call = .ok answer) :
    answer.uploadClient = uploadClient ∧ ∃ info', answer.conCls = some info' ∧
      info'.connectionType = info.connectionType ∧ info'.postprocessor = info.postprocessor := by
  cases call with
  | data pieces =>
    cases h
    exact ⟨rfl, _, rfl, info.postProcess_connection pieces⟩
  | last =>
    simp only [programAccept, programAcceptLast] at h
    cases hr : programReply info with
    | error e => rw [hr] at h; cases h
    | ok reply =>
      rw [hr] at h
      cases h
      exact ⟨rfl, _, rfl, rfl, rfl⟩

theorem programAccept_escape {resources : Resources} {uploadClient : Int} {info : ConnectionInfo} {call : Call}
    {e : Escape} (h : programAccept resources uploadClient (some info) call = .error e) :
    e.uploadClient = uploadClient := by
  cases call with
  | data pieces => cases h
  | last =>
    simp only [programAccept, programAcceptLast] at h
    cases hr : programReply info with
    | error e => rw [hr] at h; cases h; rfl
    | ok reply => rw [hr] at h; cases h

/-- **A first call** is refused and takes no slot, takes one for nothing, or takes one for its `connection_info`. -/
theorem programAcceptFirst_cases (s : Server) (resources : Resources) :
    (¬ s.Unprocessed resources ∧ ∃ reply, programAcceptFirst resources s.uploadClient =
        .ok ⟨s.uploadClient, none, some reply⟩) ∨
      (s.Unprocessed resources ∧
        ((∃ thrown, programAcceptFirst resources s.uploadClient = .error ⟨thrown, s.uploadClient - 1⟩) ∨
          ∃ reply, programAcceptFirst resources s.uploadClient = .ok ⟨s.uploadClient - 1, none, some reply⟩)) ∨
      (¬ s.Unprocessed resources ∧ ∃ info, info.connectionType = .post ∧ info.postprocessor = true ∧
        programAcceptFirst resources s.uploadClient = .ok ⟨s.uploadClient - 1, some info, none⟩) := by
  unfold programAcceptFirst Unprocessed
  split_ifs with hbusy hinfo hproc
  · exact Or.inl ⟨fun hu => by omega, _, rfl⟩
  · exact Or.inr (Or.inl ⟨⟨by omega, Or.inl hinfo⟩, Or.inl ⟨_, rfl⟩⟩)
  · exact Or.inr (Or.inl ⟨⟨by omega, Or.inr hproc⟩, Or.inr ⟨_, rfl⟩⟩)
  · exact Or.inr (Or.inr ⟨fun hu => hu.2.elim hinfo hproc, _, rfl, rfl, rfl⟩)

theorem step_uploads {s s' : Server} {a : ServerAct} (hs : s.Uploads) (h : step s a = some s') : s'.Uploads := by
  unfold step at h
  split_ifs at h
  cases a with
  | first id resources =>
    simp only at h
    split_ifs at h
    all_goals
      rcases s.programAcceptFirst_cases resources with ⟨-, reply, hf⟩ | ⟨-, ⟨thrown, hf⟩ | ⟨reply, hf⟩⟩ |
        ⟨-, info, htype, hproc, hf⟩ <;> rw [hf] at h <;> cases h
      · exact hs
      · exact hs
      · exact hs
      · exact fun id' info' hl => uploads_insert hs ⟨htype, hproc⟩ hl
  | call id call =>
    simp only at h
    split at h
    · cases h
    · rename_i info hl
      split at h
      · cases h; exact hs
      · rename_i answer ha
        cases h
        obtain ⟨-, info', hc, h1, h2⟩ := programAccept_later ha
        obtain ⟨hp, hpp⟩ := hs id info hl
        intro id' info'' hl'
        rw [hc] at hl'
        exact uploads_insert hs ⟨h1.trans hp, h2.trans hpp⟩ hl'
  | complete id =>
    cases h
    intro id' info hl
    simp only [UnorderedMap.lookup_erase'] at hl
    split_ifs at hl
    exact hs id' info hl

/-- **Every call is a step of the pool.** -/
theorem pool_step {s s' : Server} {a : ServerAct} (hs : s.Uploads) (h : step s a = some s') :
    Pool.Step s.pool s'.pool := by
  unfold step at h
  split_ifs at h
  cases a with
  | first id resources =>
    simp only at h
    split_ifs at h with hid hun
    all_goals
      rcases s.programAcceptFirst_cases resources with ⟨hu, reply, hf⟩ | ⟨hu, ⟨thrown, hf⟩ | ⟨reply, hf⟩⟩ |
        ⟨hu, info, -, -, hf⟩ <;> rw [hf] at h <;> cases h
    · exact absurd hun hu
    · -- the slot is taken and nobody will give it back
      exact .lose ..
    · exact .lose ..
    · exact absurd hun hu
    · exact .stay _
    · exact absurd hu hun
    · exact absurd hu hun
    · simp only [pool, AList.keys_insert, List.length_cons]
      rw [List.erase_of_not_mem fun hm => hid (AList.mem_keys.mpr hm)]
      exact .take ..
  | call id call =>
    simp only at h
    split at h
    · cases h
    · rename_i info hl
      split at h
      · rename_i e he
        cases h
        simp only [pool, programAccept_escape he]
        exact .stay _
      · rename_i answer ha
        cases h
        simp only [pool, (programAccept_later ha).1, length_insert_of_mem (UnorderedMap.mem_of_lookup hl)]
        exact .stay _
  | complete id =>
    cases h
    simp only [pool]
    cases hl : AList.lookup id s.requests with
    | none =>
      rw [UnorderedMap.erase_of_lookup_eq_none hl]
      exact .stay _
    | some info =>
      obtain ⟨hp, hpp⟩ := hs id info hl
      have hmem := AList.mem_keys.mp (UnorderedMap.mem_of_lookup hl)
      have hlen := List.length_erase_of_mem hmem
      have hpos := List.length_pos_of_mem hmem
      obtain ⟨k, hk⟩ : ∃ k, s.requests.keys.length = k + 1 := ⟨s.requests.keys.length - 1, by omega⟩
      simp only [postRequestComplete, hp, hpp, if_true, AList.keys_erase, hlen, hk, Nat.add_sub_cancel]
      exact .giveBack ..

/-- Every slot is free, held by a request, or lost to a first call that did not get what it asked for. -/
theorem slot_account {n : Int} {ok : Server → ServerAct → Prop} {s : Server} (h : Reach (· = init n) step ok s) :
    s.Uploads ∧ s.pool.Conserved n := by
  refine Reach.invariant (fun s => s.Uploads ∧ s.pool.Conserved n) ?_ (fun s a s' hs _ hst => ?_) h
  · rintro s rfl
    exact ⟨fun id info hl => by simp [init] at hl, by simp [init, pool, Pool.Conserved]⟩
  · exact ⟨step_uploads hs.1 hst, (pool_step hs.1 hst).conserved hs.2⟩

/-- The free slots and the requests that hold one are all the slots exactly where none was lost. -/
theorem slots_iff {n : Int} {ok : Server → ServerAct → Prop} {s : Server} (h : Reach (· = init n) step ok s) :
    s.uploadClient + s.requests.keys.length = n ↔ s.unprocessed = 0 :=
  (slot_account h).2.all_iff

/-- A first call that takes a slot gets its memory and its post processor. -/
def Supplied (s : Server) : ServerAct → Prop
  | .first _ resources => ¬ s.Unprocessed resources
  | _ => True

instance (s : Server) (a : ServerAct) : Decidable (s.Supplied a) :=
  match a with
  | .first _ resources => inferInstanceAs (Decidable (¬ s.Unprocessed resources))
  | .call _ _ | .complete _ => .isTrue trivial

theorem step_unprocessed {s s' : Server} {a : ServerAct} (hs : s.unprocessed = 0) (hok : s.Supplied a)
    (h : step s a = some s') : s'.unprocessed = 0 := by
  unfold step at h
  split_ifs at h
  cases a with
  | first id resources =>
    simp only [if_neg hok] at h
    split_ifs at h
    split at h <;> cases h <;> exact hs
  | call id call =>
    simp only at h
    split at h
    · cases h
    · split at h <;> cases h <;> exact hs
  | complete id => cases h; exact hs

/-- **Upload slots are conserved.** In every run whose first calls get what they ask for, the free slots and the
requests that hold one are the configured number; so when all have completed every slot is free. -/
theorem slots_conserved {n : Int} {s : Server} (h : Reach (· = init n) step Supplied s) :
    s.uploadClient + s.requests.keys.length = n ∧ (s.requests.keys = [] → s.uploadClient = n) := by
  have hall : s.uploadClient + s.requests.keys.length = n := by
    refine (slots_iff h).mpr (Reach.invariant (fun s => s.unprocessed = 0) ?_ (fun s a s' hs hok hst => ?_) h)
    · rintro s rfl
      rfl
    · exact step_unprocessed hs hok hst
  refine ⟨hall, fun he => ?_⟩
  rw [he] at hall
  simpa using hall

/-- Two clients, one slot: the second is refused, the first is aborted. -/
def busyRun : List ServerAct :=
  [.first 1 ⟨true, true⟩, .first 2 ⟨true, true⟩, .call 1 (.data [⟨"name".toList, "cam".toList, 0⟩]), .complete 2,
    .complete 1]

theorem slots_conserved_busy : ∃ s, run (checked (fun s a => decide (Supplied s a)) step) (init 1) busyRun = some s ∧
    s.uploadClient = 1 ∧ s.uploadClient + s.requests.keys.length = 1 :=
  ⟨_, rfl, rfl, (slots_conserved (.of_checked (fun s a => decide (Supplied s a)) (fun _ _ h => of_decide_eq_true h)
    (.init rfl) (rfl : run _ (init 1) busyRun = some _))).1⟩

/-- **A slot that is lost.** The path without a post processor returns without giving the slot back; the server is then
busy for ever. -/
theorem leaked_slot : ∃ s, Reach (· = init 1) step (fun _ _ => True) s ∧ s.requests.keys = [] ∧
    s.uploadClient + s.requests.keys.length ≠ 1 :=
  ⟨_, .of_run (.init rfl) (rfl : run step (init 1) [.first 1 ⟨true, false⟩, .complete 1] = some _), rfl, by decide⟩

end Server

end RpiCam.Http
