import RpiCam.Http.Handler

/-!
# The headers of an event

`event_accept` reads two headers by an iteration that stops as soon as it has an id and a time.

* `sent key headers` : the values of the headers `key`, in the order of the iteration;
* `carried` : an id and a time from the values alone, and `eventInfo_eq` : the iteration reads them;
* `PassesChecks` : neither refusal of `event_accept` is the answer, `passesChecks_iff`;
* `carried_congr` : headers in another order, among others;
* `event_headers_exact` : the checks, and the id and the time that the call goes on with.
-/

namespace RpiCam.Http

abbrev Headers := List (List Char × List Char)

/-- The values of the headers `key`. -/
def sent (key : List Char) (headers : Headers) : List (List Char) :=
  (headers.filter fun h => h.1 = key).map Prod.snd

/-- The two headers that are read, each at most once. -/
structure SentOnce (headers : Headers) : Prop where
  id : (sent "transactionid".toList headers).length ≤ 1
  time : (sent "eventtime".toList headers).length ≤ 1

/-- `event_info` after headers that are all looked at. -/
def carried (info : EventInfo) (headers : Headers) : EventInfo where
  timeStamp := ((sent "eventtime".toList headers).getLast?.map strtoll).getD info.timeStamp
  id := (sent "transactionid".toList headers).getLast?.getD info.id

/-- The answer is neither `"id is emtpy"` nor `"time is empty"`. -/
def PassesChecks (w : Surroundings) (headers : Headers) : Prop :=
  eventAccept w headers ≠ .ok ⟨⟨400, "id is emtpy"⟩, none⟩ ∧ eventAccept w headers ≠ .ok ⟨⟨400, "time is empty"⟩, none⟩

/-! ## Values -/

theorem sent_cons (key : List Char) (h : List Char × List Char) (headers : Headers) :
    sent key (h :: headers) = if h.1 = key then h.2 :: sent key headers else sent key headers := by
  unfold sent
  by_cases hk : h.1 = key
  · rw [List.filter_cons_of_pos (by simpa using hk), List.map_cons, if_pos hk]
  · rw [List.filter_cons_of_neg (by simpa using hk), if_neg hk]

theorem sent_singleton (key : List Char) (h : List Char × List Char) :
    sent key [h] = if h.1 = key then [h.2] else [] :=
  sent_cons key h []

theorem sent_rest {key : List Char} {h : List Char × List Char} {headers : Headers}
    (hlen : (sent key (h :: headers)).length ≤ 1) (hnone : h.1 ≠ key → sent key (h :: headers) = []) :
    sent key headers = [] := by
  rw [sent_cons] at hlen hnone
  by_cases hk : h.1 = key
  · rw [if_pos hk, List.length_cons] at hlen
    exact List.length_eq_zero_iff.mp (by omega)
  · rw [if_neg hk] at hnone
    exact hnone hk

theorem SentOnce.tail {h : List Char × List Char} {headers : Headers} (hs : SentOnce (h :: headers)) :
    SentOnce headers := by
  have hle : ∀ key, (sent key headers).length ≤ (sent key (h :: headers)).length := by
    intro key
    rw [sent_cons]
    split_ifs
    · exact Nat.le_succ _
    · exact Nat.le_refl _
  exact ⟨(hle _).trans hs.id, (hle _).trans hs.time⟩

theorem mem_sent {key value : List Char} {headers : Headers} : value ∈ sent key headers ↔ (key, value) ∈ headers := by
  unfold sent
  rw [List.mem_map]
  constructor
  · rintro ⟨⟨k, v⟩, hmem, rfl⟩
    rw [List.mem_filter, decide_eq_true_eq] at hmem
    obtain ⟨hmem, rfl⟩ := hmem
    exact hmem
  · intro hmem
    exact ⟨(key, value), List.mem_filter.mpr ⟨hmem, by simp⟩, rfl⟩

theorem sent_append (key : List Char) (headers others : Headers) :
    sent key (headers ++ others) = sent key headers ++ sent key others := by
  unfold sent
  rw [List.filter_append, List.map_append]

theorem sent_others {key : List Char} (headers : Headers) {others : Headers} (h : ∀ header ∈ others, header.1 ≠ key) :
    sent key (headers ++ others) = sent key headers := by
  have hempty : sent key others = [] := by
    unfold sent
    rw [List.filter_eq_nil_iff.mpr (by simpa using h)]
    rfl
  rw [sent_append, hempty, List.append_nil]

theorem sent_perm {headers headers' : Headers} (h : headers'.Perm headers) (key : List Char) :
    (sent key headers').Perm (sent key headers) :=
  (h.filter _).map _

theorem getLast?_sent {key value : List Char} {headers : Headers} (h : (sent key headers).length ≤ 1) :
    (sent key headers).getLast? = some value ↔ (key, value) ∈ headers := by
  rw [← mem_sent]
  match sent key headers, h with
  | [], _ => simp
  | [v], _ => simp [eq_comm]

theorem eq_of_perm {values values' : List (List Char)} (h : values'.Perm values) (hlen : values.length ≤ 1) :
    values' = values := by
  match values, hlen with
  | [], _ => exact h.eq_nil
  | [v], _ => exact List.perm_singleton.mp h

/-! ## The iteration -/

/-- The step of the iteration, key by key. It stops where both are there. -/
theorem eventInfo_cons (info : EventInfo) (key value : List Char) (headers : Headers) :
    eventInfo info ((key, value) :: headers) =
      if (carried info [(key, value)]).id ≠ [] ∧ (carried info [(key, value)]).timeStamp ≠ 0 then
        carried info [(key, value)]
      else eventInfo (carried info [(key, value)]) headers := by
  have hiter : (eventHeaderIter info key value).1 = carried info [(key, value)] := by
    unfold eventHeaderIter carried
    by_cases hid : key = "transactionid".toList
    · subst hid
      rfl
    · by_cases htime : key = "eventtime".toList
      · subst htime
        rfl
      · simp only [hid, htime, sent_cons, if_false]
        rfl
  have hstop : (eventHeaderIter info key value).2 =
      !decide ((carried info [(key, value)]).id ≠ [] ∧ (carried info [(key, value)]).timeStamp ≠ 0) := by
    rw [← hiter]
    unfold eventHeaderIter
    simp only [decide_not]
  rw [eventInfo, hiter, hstop]
  by_cases hboth : (carried info [(key, value)]).id ≠ [] ∧ (carried info [(key, value)]).timeStamp ≠ 0
  · simp [hboth]
  · simp only [hboth, decide_false, Bool.not_false, if_true, if_false]

theorem carried_cons (info : EventInfo) (h : List Char × List Char) (headers : Headers) :
    carried info (h :: headers) = carried (carried info [h]) headers := by
  have hlast : ∀ key, (sent key (h :: headers)).getLast? = (sent key headers).getLast?.or (sent key [h]).getLast? := by
    intro key
    rw [← List.singleton_append, sent_append, List.getLast?_append]
  unfold carried
  simp only [hlast]
  congr 1
  · cases (sent "eventtime".toList headers).getLast? <;> rfl
  · cases (sent "transactionid".toList headers).getLast? <;> rfl

/-- **The iteration reads the two headers, wherever it stops.** What it has already is not sent again. -/
theorem eventInfo_eq {info : EventInfo} {headers : Headers} (h : SentOnce headers)
    (hid : info.id ≠ [] → sent "transactionid".toList headers = [])
    (htime : info.timeStamp ≠ 0 → sent "eventtime".toList headers = []) :
    eventInfo info headers = carried info headers := by
  induction headers generalizing info with
  | nil => rfl
  | cons header headers ih =>
    obtain ⟨key, value⟩ := header
    set info' := carried info [(key, value)] with hinfo
    -- a value that is set is not sent by the rest
    have hid' : info'.id ≠ [] → sent "transactionid".toList headers = [] := by
      intro hne
      apply sent_rest h.id
      intro hk
      apply hid
      rw [hinfo, carried, sent_singleton, sent_singleton, if_neg hk] at hne
      exact hne
    have htime' : info'.timeStamp ≠ 0 → sent "eventtime".toList headers = [] := by
      intro hne
      apply sent_rest h.time
      intro hk
      apply htime
      rw [hinfo, carried, sent_singleton, sent_singleton, if_neg hk] at hne
      exact hne
    rw [carried_cons info (key, value) headers, eventInfo_cons, ← hinfo]
    split_ifs with hboth
    · rw [carried, hid' hboth.1, htime' hboth.2]
      rfl
    · exact ih h.tail hid' htime'

/-- The headers are read alike in another order, and among others. -/
theorem carried_congr {headers headers' others : Headers} (h : SentOnce headers)
    (hothers : ∀ header ∈ others, header.1 ≠ "transactionid".toList ∧ header.1 ≠ "eventtime".toList)
    (hperm : headers'.Perm (headers ++ others)) (info : EventInfo) :
    SentOnce headers' ∧ carried info headers' = carried info headers := by
  have hid : sent "transactionid".toList headers' = sent "transactionid".toList headers := by
    apply eq_of_perm _ h.id
    rw [← sent_others headers fun header hmem => (hothers header hmem).1]
    exact sent_perm hperm _
  have htime : sent "eventtime".toList headers' = sent "eventtime".toList headers := by
    apply eq_of_perm _ h.time
    rw [← sent_others headers fun header hmem => (hothers header hmem).2]
    exact sent_perm hperm _
  constructor
  · constructor
    · rw [hid]
      exact h.id
    · rw [htime]
      exact h.time
  · unfold carried
    rw [hid, htime]

/-! ## The checks -/

theorem eventVideo_status {w : Surroundings} {id : List Char} {time : Int} {answer : EventAnswer}
    (h : eventVideo w id time = .ok answer) : answer.reply.status ≠ 400 := by
  unfold eventVideo at h
  split at h
  · cases h
  · cases h
  · cases h
  · split_ifs at h <;> cases h <;> simp

theorem passesChecks_iff (w : Surroundings) (headers : Headers) :
    PassesChecks w headers ↔
      (eventInfo ⟨0, []⟩ headers).id ≠ [] ∧ (eventInfo ⟨0, []⟩ headers).timeStamp ≠ 0 := by
  unfold PassesChecks eventAccept
  dsimp only
  split_ifs with hid htime
  · simp [hid]
  · simp [htime]
  · simp only [ne_eq, hid, htime, not_false_eq_true, and_self, iff_true]
    exact ⟨fun h => eventVideo_status h rfl, fun h => eventVideo_status h rfl⟩

theorem eventInfo_fresh {headers : Headers} (h : SentOnce headers) :
    eventInfo ⟨0, []⟩ headers = carried ⟨0, []⟩ headers :=
  eventInfo_eq h (fun hne => absurd rfl hne) (fun hne => absurd rfl hne)

theorem carried_id_ne_nil {headers : Headers} (h : SentOnce headers) :
    (carried ⟨0, []⟩ headers).id ≠ [] ↔ ∃ id, ("transactionid".toList, id) ∈ headers ∧ id ≠ [] := by
  simp only [← getLast?_sent h.id]
  unfold carried
  cases (sent "transactionid".toList headers).getLast? <;> simp

theorem carried_timeStamp_ne_zero {headers : Headers} (h : SentOnce headers) :
    (carried ⟨0, []⟩ headers).timeStamp ≠ 0 ↔ ∃ time, ("eventtime".toList, time) ∈ headers ∧ strtoll time ≠ 0 := by
  simp only [← getLast?_sent h.time]
  unfold carried
  cases (sent "eventtime".toList headers).getLast? <;> simp

/-- **The headers of an event are read whatever their order and the headers beside them**: the checks are passed exactly
with an id that is not empty and a time that is not zero, and the call goes on with these. -/
theorem event_headers_exact (w : Surroundings) {headers : Headers} (h : SentOnce headers) :
    (PassesChecks w headers ↔
      ∃ id time, ("transactionid".toList, id) ∈ headers ∧ ("eventtime".toList, time) ∈ headers ∧
        id ≠ [] ∧ strtoll time ≠ 0) ∧
    (∀ id time, ("transactionid".toList, id) ∈ headers → ("eventtime".toList, time) ∈ headers →
      id ≠ [] → strtoll time ≠ 0 → eventAccept w headers = eventVideo w id (strtoll time)) ∧
    ∀ others headers' : Headers,
      (∀ header ∈ others, header.1 ≠ "transactionid".toList ∧ header.1 ≠ "eventtime".toList) →
      headers'.Perm (headers ++ others) →
      (PassesChecks w headers' ↔ PassesChecks w headers) ∧ eventAccept w headers' = eventAccept w headers := by
  refine ⟨?_, ?_, ?_⟩
  · rw [passesChecks_iff, eventInfo_fresh h, carried_id_ne_nil h, carried_timeStamp_ne_zero h]
    constructor
    · rintro ⟨⟨id, hid, hne⟩, time, htime, hzero⟩
      exact ⟨id, time, hid, htime, hne, hzero⟩
    · rintro ⟨id, time, hid, htime, hne, hzero⟩
      exact ⟨⟨id, hid, hne⟩, time, htime, hzero⟩
  · intro id time hid htime hne hzero
    have hinfo : eventInfo ⟨0, []⟩ headers = ⟨strtoll time, id⟩ := by
      rw [eventInfo_fresh h, carried, (getLast?_sent h.id).mpr hid, (getLast?_sent h.time).mpr htime]
      rfl
    unfold eventAccept
    simp only [hinfo, if_neg hne, if_neg hzero]
  · intro others headers' hothers hperm
    obtain ⟨h', hcarried⟩ := carried_congr h hothers hperm ⟨0, []⟩
    have hinfo : eventInfo ⟨0, []⟩ headers' = eventInfo ⟨0, []⟩ headers := by
      rw [eventInfo_fresh h', eventInfo_fresh h, hcarried]
    constructor
    · rw [passesChecks_iff, passesChecks_iff, hinfo]
    · unfold eventAccept
      rw [hinfo]

/-- An event with its two headers around another one. -/
def eventHeaders : Headers :=
  [("eventtime".toList, "1700000000".toList), ("host".toList, "cam".toList), ("transactionid".toList, "7".toList)]

theorem event_headers_exact_cam :
    eventAccept HttpRequest.startCam.surroundings eventHeaders =
        eventVideo HttpRequest.startCam.surroundings "7".toList 1700000000 ∧
      eventAccept HttpRequest.startCam.surroundings (eventHeaders.reverse ++ [("accept".toList, "*/*".toList)]) =
        eventAccept HttpRequest.startCam.surroundings eventHeaders := by
  have h : SentOnce eventHeaders := ⟨by decide, by decide⟩
  have hexact := event_headers_exact HttpRequest.startCam.surroundings h
  have htime : strtoll "1700000000".toList = 1700000000 := by decide
  constructor
  · rw [← htime]
    exact hexact.2.1 "7".toList "1700000000".toList (by decide) (by decide) (by decide) (by decide)
  · apply (hexact.2.2 [("accept".toList, "*/*".toList)] _ (by decide) _).2
    exact (List.reverse_perm _).append_right _

end RpiCam.Http
