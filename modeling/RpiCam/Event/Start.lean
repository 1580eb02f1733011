import RpiCam.Event.Lifetime

/-!
# Starting an event

The constructor of `EventProcessor` reads what is in the directory of the event and drops the result of `event_init`,
and `start_event` answers 0 without looking at the processor.

* `Complete` : the program, the rate and the flag of a processor are those of the directory;
* `Provided` : the directory has all of them, `complete_new` and `complete_iff`;
* `AllOrNothing` : a start that succeeds has a complete processor whose loop registers, and one that fails changes
  nothing;
* `Traced` : the processors a run started, and the consumers and frames of each;
* `all_or_nothing_iff` : a start is all or nothing exactly where the directory provides everything and the name is
  free, and in runs of such starts every frame goes to a complete processor;
* `unloaded_program` : the directory an upload leaves, which has no shared object.
-/

namespace RpiCam

open Transition FileSystem

namespace EventProcessor

/-- `entry.path()` of the flag. -/
def enablePath (eventName : Name) : List Char := eventDirectory eventName ++ "/".toList ++ "enable".toList

def rateOf (order : List Name) : Option Int := ((order.filter isPositive).getLast?).bind fun n => (stoi n).toOption

/-- The flag of the directory. -/
def enableOf (fs : FileSystem) (cwd : Path) (eventName : Name) : Option Bool :=
  ((fs.readFile cwd (enablePath eventName)).bind extractInt).map (decide <| · ≠ 0)

variable (loads hasMain : List Char → Bool) (fs : FileSystem) (cwd : Path)

/-- `_event_program` is the `event_main` of the shared object, `_fps` is the number of a file name, and `_enable` is
what the file `enable` says. -/
structure Complete (order : List Name) (p : EventProcessor) : Prop where
  program : ∃ program, p.handle = some program ∧ fs.readFile cwd (soPath p.eventName) = some program ∧
    hasMain program = true
  fps : ∃ filename ∈ order, ∃ n, isPositive filename = true ∧ stoi filename = .ok n ∧ p.fps = some n
  enable : ∃ enable, enableOf fs cwd p.eventName = some enable ∧ p.enable = some enable

/-- The directory exists and has a frame rate other than zero, a number in `enable`, and a shared object that opens and
has an `event_main`. -/
structure Provided (eventName : Name) (order : List Name) : Prop where
  directory : (fs.walkDir cwd (components (eventDirectory eventName))).isSome = true
  rate : ∃ n, rateOf order = some n ∧ n ≠ 0
  enable : "enable".toList ∈ order ∧ (enableOf fs cwd eventName).isSome = true
  program : ∃ program, fs.readFile cwd (soPath eventName) = some program ∧ loads program = true ∧
    hasMain program = true

/-! ## What the constructor reads -/

variable {loads hasMain fs cwd}

theorem not_isPositive_enable : isPositive "enable".toList = false := by decide

theorem rateOf_concat (order : List Name) (filename : Name) :
    rateOf (order ++ [filename]) =
      if isPositive filename then (stoi filename).toOption else rateOf order := by
  simp only [rateOf, List.filter_append]
  cases h : isPositive filename with
  | true => simp [h]
  | false => simp [h]

theorem rateOf_mem {order : List Name} {n : Int} (h : rateOf order = some n) :
    ∃ filename ∈ order, isPositive filename = true ∧ stoi filename = .ok n := by
  unfold rateOf at h
  rw [Option.bind_eq_some_iff] at h
  obtain ⟨filename, hl, hn⟩ := h
  have hmem := List.mem_filter.mp (List.mem_of_getLast? hl)
  refine ⟨filename, hmem.1, hmem.2, ?_⟩
  cases hs : stoi filename with
  | ok m =>
    rw [hs] at hn
    cases hn
    rfl
  | error e =>
    rw [hs] at hn
    cases hn

theorem scanEntry_enable {p : EventProcessor} {filename : Name} :
    (scanEntry fs cwd p filename).enable =
      if filename = "enable".toList ∧ (enableOf fs cwd p.eventName).isSome then enableOf fs cwd p.eventName
      else p.enable := by
  unfold scanEntry enableOf enablePath
  by_cases he : filename = "enable".toList
  · subst he
    rw [if_pos rfl]
    cases (fs.readFile cwd (eventDirectory p.eventName ++ "/".toList ++ "enable".toList)).bind extractInt with
    | none => rfl
    | some n => simp
  · rw [if_neg he, if_neg (not_and_of_not_left _ he)]
    split_ifs <;> rfl

theorem foldl_scanEntry_fps (order : List Name) (eventName : Name) :
    (order.foldl (scanEntry fs cwd) ⟨eventName, none, none, none⟩).fps = rateOf order := by
  induction order using List.reverseRecOn with
  | nil => rfl
  | append_singleton order filename ih =>
    rw [List.foldl_append, List.foldl_cons, List.foldl_nil, rateOf_concat, ← ih]
    unfold scanEntry
    by_cases he : filename = "enable".toList
    · rw [if_pos he, he, not_isPositive_enable]
      split <;> rfl
    · rw [if_neg he]
      split_ifs <;> rfl

theorem foldl_scanEntry_enable (order : List Name) (eventName : Name) :
    (order.foldl (scanEntry fs cwd) ⟨eventName, none, none, none⟩).enable =
      if "enable".toList ∈ order then enableOf fs cwd eventName else none := by
  induction order using List.reverseRecOn with
  | nil => rfl
  | append_singleton order filename ih =>
    rw [List.foldl_append, List.foldl_cons, List.foldl_nil, scanEntry_enable, (foldl_scanEntry fs cwd order _).1, ih]
    by_cases he : filename = "enable".toList
    · rw [if_pos (List.mem_append.mpr (Or.inr (List.mem_singleton.mpr he.symm)))]
      cases enableOf fs cwd eventName with
      | none => split_ifs <;> rfl
      | some b => simp [he]
    · rw [if_neg fun h => he h.1]
      have hmem : "enable".toList ∈ order ++ [filename] ↔ "enable".toList ∈ order := by
        rw [List.mem_append, List.mem_singleton]
        exact or_iff_left (Ne.symm he)
      exact if_congr hmem.symm rfl rfl

theorem scan_eventName (eventName : Name) (order : List Name) :
    (scan fs cwd eventName order).eventName = eventName ∧ (scan fs cwd eventName order).handle = none := by
  unfold scan
  split
  · exact foldl_scanEntry fs cwd order _
  · exact ⟨rfl, rfl⟩

theorem eventInit_processor (p : EventProcessor) : (eventInit loads hasMain fs cwd p).2 =
    { p with handle := ((fs.readFile cwd (soPath p.eventName)).filter loads).or p.handle } := by
  unfold eventInit
  cases (fs.readFile cwd (soPath p.eventName)).filter loads with
  | none => rfl
  | some program =>
    show (if hasMain program = true then _ else _ : Int × EventProcessor).2 = _
    split_ifs <;> rfl

theorem new_eq (eventName : Name) (order : List Name) : new loads hasMain fs cwd eventName order =
    { scan fs cwd eventName order with handle := (fs.readFile cwd (soPath eventName)).filter loads } := by
  rw [new, eventInit_processor, (scan_eventName eventName order).2, Option.or_none]
  have hname : (scan fs cwd eventName order).eventName = eventName := (scan_eventName eventName order).1
  show ({ scan fs cwd eventName order with handle := _ } : EventProcessor) = _
  rw [congrArg soPath hname]

/-- In a directory that is there, the settings are those of its files. -/
theorem scan_settings {eventName : Name} (h : (fs.walkDir cwd (components (eventDirectory eventName))).isSome = true)
    (order : List Name) :
    (scan fs cwd eventName order).fps = rateOf order ∧
      (scan fs cwd eventName order).enable =
        if "enable".toList ∈ order then enableOf fs cwd eventName else none := by
  obtain ⟨dir, hdir⟩ := Option.isSome_iff_exists.mp h
  rw [scan, hdir]
  exact ⟨foldl_scanEntry_fps order eventName, foldl_scanEntry_enable order eventName⟩

theorem scan_missing {eventName : Name} {order : List Name}
    (h : ¬ (fs.walkDir cwd (components (eventDirectory eventName))).isSome = true) :
    (scan fs cwd eventName order).fps = none := by
  rw [Option.not_isSome_iff_eq_none] at h
  rw [scan, h]

/-- What the constructor makes is complete, with a rate other than zero, exactly where the directory provides
everything. -/
theorem complete_iff (eventName : Name) (order : List Name) :
    (Complete hasMain fs cwd order (new loads hasMain fs cwd eventName order) ∧
      (new loads hasMain fs cwd eventName order).fps ≠ some 0) ↔
      Provided loads hasMain fs cwd eventName order := by
  rw [new_eq]
  constructor
  · rintro ⟨⟨⟨program, hhandle, hread, hmain⟩, ⟨filename, hmem, n, hpos, hn, hfps⟩, ⟨b, hb, hflag⟩⟩, hzero⟩
    simp only [scan_eventName] at hhandle hread hb hfps hflag hzero
    have hdir : (fs.walkDir cwd (components (eventDirectory eventName))).isSome = true := by
      by_contra hno
      rw [scan_missing hno] at hfps
      cases hfps
    obtain ⟨hrate, henable⟩ := scan_settings hdir order
    refine ⟨hdir, ⟨n, ?_, ?_⟩, ?_, ⟨program, hread, ?_, hmain⟩⟩
    · rw [← hrate, hfps]
    · rintro rfl
      exact hzero hfps
    · rw [henable] at hflag
      split_ifs at hflag with hmem
      exact ⟨hmem, by rw [hb]; rfl⟩
    · exact (Option.filter_eq_some_iff.mp hhandle).2
  · rintro ⟨hdir, ⟨n, hrate, hn⟩, ⟨hmem, hflag⟩, ⟨program, hread, hloads, hmain⟩⟩
    obtain ⟨hfps, henable⟩ := scan_settings hdir order
    obtain ⟨filename, hfile, hpos, hnumber⟩ := rateOf_mem hrate
    obtain ⟨b, hb⟩ := Option.isSome_iff_exists.mp hflag
    rw [hrate] at hfps
    rw [if_pos hmem, hb] at henable
    refine ⟨⟨⟨program, ?_, ?_, hmain⟩, ⟨filename, hfile, n, hpos, hnumber, hfps⟩, ⟨b, ?_, henable⟩⟩, ?_⟩
    · exact Option.filter_eq_some_iff.mpr ⟨hread, hloads⟩
    · rw [← hread]
      exact congrArg (fun name => fs.readFile cwd (soPath name)) (scan_eventName eventName order).1
    · rw [← hb]
      exact congrArg (enableOf fs cwd) (scan_eventName eventName order).1
    · show (scan fs cwd eventName order).fps ≠ some 0
      rw [hfps]
      exact fun h => hn (Option.some.inj h)

/-! ## One start -/

/-- The registration `event_loop` begins with. A setting that was not read is what the memory held. -/
def register (p : EventProcessor) (v : VideoQueue) (fps : Int) (enable : Bool) : Outcome Int :=
  (v.newThreadInfo (p.fps.getD fps) (p.enable.getD enable)).insertEvent p.eventName v.nextInfo

/-- `start_event` answers 0, the processor is complete, its one loop is launched and enters its name in the queue; or
it reports a failure, no loop is launched, and the map is as it was. -/
def AllOrNothing (hasMain : List Char → Bool) (fs : FileSystem) (cwd : Path) (order : List Name)
    (event : EventProcessor) (s : HandlerState) (v : VideoQueue) (fps : Int) (enable : Bool) : Prop :=
  ∃ s', s.call (.start event) = some s' ∧
    ((s'.ret = 0 ∧ Complete hasMain fs cwd order event ∧ s'.launched = s.launched ++ [s.handler.nextProcessor] ∧
        s'.handler.objects s.handler.nextProcessor = some event ∧ ∃ w, event.register v fps enable = .done w 0) ∨
      (s'.ret ≠ 0 ∧ s'.launched = s.launched ∧ s'.handler.eventThread = s.handler.eventThread))

/-- Where the settings were read, the loop registers exactly if its name is free and the rate is not zero. -/
theorem register_iff {p : EventProcessor} {n : Int} (h : p.fps = some n) (v : VideoQueue) (fps : Int) (enable : Bool) :
    (∃ w, p.register v fps enable = .done w 0) ↔ AList.lookup p.eventName v.threadInfo = none ∧ n ≠ 0 := by
  simp only [register, VideoQueue.insertEvent, VideoQueue.newThreadInfo, h, Option.getD_some, Function.update_self]
  cases AList.lookup p.eventName v.threadInfo with
  | some t => simp
  | none =>
    show (∃ w, (if n = 0 then _ else _) = _) ↔ _
    split_ifs with hn <;> simp [hn]

theorem allOrNothing_iff (eventName : Name) (order : List Name) (s : HandlerState) (v : VideoQueue) (fps : Int)
    (enable : Bool) :
    AllOrNothing hasMain fs cwd order (new loads hasMain fs cwd eventName order) s v fps enable ↔
      Provided loads hasMain fs cwd eventName order ∧ AList.lookup eventName v.threadInfo = none := by
  rw [← complete_iff]
  have hname : (new loads hasMain fs cwd eventName order).eventName = eventName := by
    rw [new_eq]
    exact (scan_eventName eventName order).1
  constructor
  · rintro ⟨s', hs, ⟨-, hcomplete, -, -, hw⟩ | ⟨hret, -⟩⟩
    · obtain ⟨-, -, n, -, -, hfps⟩ := hcomplete.fps
      rw [register_iff hfps, hname] at hw
      refine ⟨⟨hcomplete, ?_⟩, hw.1⟩
      rw [hfps]
      exact fun h => hw.2 (Option.some.inj h)
    · cases hs
      exact absurd rfl hret
  · rintro ⟨⟨hcomplete, hzero⟩, hfree⟩
    obtain ⟨-, -, n, -, -, hfps⟩ := hcomplete.fps
    refine ⟨_, rfl, Or.inl ⟨rfl, hcomplete, rfl, Function.update_self .., ?_⟩⟩
    rw [register_iff hfps, hname]
    refine ⟨hfree, ?_⟩
    rintro rfl
    exact hzero hfps

end EventProcessor

/-! ## Runs -/

namespace System

/-- The processor that a step starts. -/
def startOf : Tid × SysAct → Option EventProcessor
  | (_, .startEvent event _) => some event
  | _ => none

/-- The processors that a run starts, in order. -/
def startsOf (acts : List (Tid × SysAct)) : List EventProcessor := acts.filterMap startOf

/-- The addresses count the processors that were started, and each loop and each frame is of one of them. -/
structure Traced (starts : List EventProcessor) (s : System) : Prop where
  next : s.handler.nextProcessor = starts.length
  consumer : ∀ i p name, (s.caller i).consumer = some (.event p name) →
    ∃ event, starts[p]? = some event ∧ event.eventName = name
  handed : ∀ i p name b, .handed i (.event p name) b ∈ s.marks →
    ∃ event, starts[p]? = some event ∧ event.eventName = name

theorem nextProcessor_step {s s' : System} {i : Tid} {a : SysAct} (h : Rule s i a (s.caller i) s') :
    s'.handler.nextProcessor = s.handler.nextProcessor + (startOf (i, a)).toList.length := by
  generalize s.caller i = p at h
  cases h with
  | startEvent => rfl
  | turn ht hidle => cases ht <;> rfl
  | call hc hq => cases hc <;> rfl
  | delete hidle hn hdel =>
    simp only [EventHandler.stopEvent, Option.map_eq_some_iff, Prod.mk.injEq] at hn
    obtain ⟨q, -, rfl, -⟩ := hn
    rfl
  | _ => rfl

theorem started_append {starts more : List EventProcessor} {p : ProcessorId} {name : Name}
    (h : ∃ event, starts[p]? = some event ∧ event.eventName = name) :
    ∃ event, (starts ++ more)[p]? = some event ∧ event.eventName = name := by
  obtain ⟨event, he, hname⟩ := h
  refine ⟨event, ?_, hname⟩
  rw [List.getElem?_append_left (List.getElem?_eq_some_iff.mp he).1]
  exact he

theorem step_traced {starts : List EventProcessor} {s s' : System} {i : Tid} {a : SysAct} (hs : Traced starts s)
    (h : Rule s i a (s.caller i) s') : Traced (starts ++ (startOf (i, a)).toList) s' where
  next := by rw [nextProcessor_step h, hs.next, List.length_append]
  consumer j p name hj := by
    rcases consumer_event h hj with hold | ⟨event, rfl, rfl, rfl⟩
    · exact started_append (hs.consumer j p name hold)
    · refine ⟨event, ?_, rfl⟩
      rw [hs.next]
      exact List.getElem?_concat_length
  handed j p name b hm := by
    rcases h.marks_cases with he | ⟨m, he, hhanded⟩
    · rw [he] at hm
      exact started_append (hs.handed j p name b hm)
    · rw [he] at hm
      rcases List.mem_append.mp hm with hm | hm
      · exact started_append (hs.handed j p name b hm)
      · -- the frame goes to the thread that came back from `pop`
        obtain ⟨rfl, hc⟩ := hhanded j _ b (List.mem_singleton.mp hm).symm
        exact started_append (hs.consumer j p name (by rw [hc]; rfl))

theorem run_traced {starts : List EventProcessor} {s s' : System} {acts : List (Tid × SysAct)} (hs : Traced starts s)
    (h : run step s acts = some s') : Traced (starts ++ startsOf acts) s' := by
  induction acts generalizing starts s with
  | nil =>
    cases h
    rw [startsOf, List.filterMap_nil, List.append_nil]
    exact hs
  | cons ia acts ih =>
    rw [run_cons, Option.bind_eq_some_iff] at h
    obtain ⟨t, ht, h⟩ := h
    have hrest := ih (step_traced hs (step_sound ht)) h
    rw [List.append_assoc] at hrest
    have hcons : startsOf (ia :: acts) = (startOf ia).toList ++ startsOf acts := by
      rw [startsOf, List.filterMap_cons]
      cases startOf ia <;> rfl
    rw [hcons]
    exact hrest

theorem traced_init (F : Int) : Traced [] (init F) where
  next := rfl
  consumer i p name h := by cases h
  handed i p name b h := by cases h

open EventProcessor

/-- **Starting an event is all or nothing** exactly where its directory provides everything and its name is free; in
every run whose processors come from such directories, each frame goes to a complete processor. -/
theorem all_or_nothing_iff (loads hasMain : List Char → Bool) :
    (∀ fs cwd eventName order s v fps enable,
      AllOrNothing hasMain fs cwd order (new loads hasMain fs cwd eventName order) s v fps enable ↔
        Provided loads hasMain fs cwd eventName order ∧ AList.lookup eventName v.threadInfo = none) ∧
    ∀ F acts s, run step (init F) acts = some s →
      (∀ event ∈ startsOf acts, ∃ fs cwd eventName order,
        event = new loads hasMain fs cwd eventName order ∧ Provided loads hasMain fs cwd eventName order) →
      ∀ i p name b, .handed i (.event p name) b ∈ s.marks →
        ∃ event fs cwd order, (startsOf acts)[p]? = some event ∧ event.eventName = name ∧
          Complete hasMain fs cwd order event := by
  constructor
  · intro fs cwd eventName order s v fps enable
    exact allOrNothing_iff eventName order s v fps enable
  · intro F acts s hrun hprovided i p name b hm
    obtain ⟨event, hp, hname⟩ := (run_traced (traced_init F) hrun).handed i p name b hm
    obtain ⟨fs, cwd, eventName, order, rfl, hdir⟩ := hprovided event (List.mem_of_getElem? hp)
    exact ⟨_, fs, cwd, order, hp, hname, ((complete_iff eventName order).mpr hdir).1⟩

/-- What an upload of `cam` leaves: the program, its rate and the flag. -/
def uploadedTree : FileSystem :=
  ((((bare.put ["event".toList] .dir).put ["event".toList, "cam".toList] .dir).put
    ["event".toList, "cam".toList, "cam".toList] (.file ['x'])).put
    ["event".toList, "cam".toList, "30".toList] (.file [])).put
    ["event".toList, "cam".toList, "enable".toList] (.file ['1'])

/-- The same with the shared object. -/
def preparedTree : FileSystem := uploadedTree.put ["event".toList, "cam".toList, "cam.so".toList] (.file ['s', 'o'])

def camOrder : List Name := ["cam".toList, "30".toList, "enable".toList]

def camOf (fs : FileSystem) (order : List Name) : EventProcessor :=
  new (fun _ => true) (fun _ => true) fs [] ['c', 'a', 'm'] order

/-- Thread `6` starts the event, and thread `7` takes a frame and runs it. -/
def startedRun (event : EventProcessor) : List (Tid × SysAct) :=
  [(6, .startEvent event 7)] ++ registering true ++
    (State.pushingRun ++ State.passingRun).map (fun ia => (ia.1, .queue ia.2)) ++ List.replicate 10 (7, .queue .run) ++
    [(7, .frame)]

def preparedCam : EventProcessor := camOf preparedTree ("cam.so".toList :: camOrder)

theorem all_or_nothing_cam : ∃ s, run step (init 30) (startedRun preparedCam) = some s ∧
    (∃ b, s.marks = [.handed 7 (.event 0 ['c', 'a', 'm']) b]) ∧
    ∃ event fs cwd order, [preparedCam][0]? = some event ∧ event.eventName = ['c', 'a', 'm'] ∧
      Complete (fun _ => true) fs cwd order event := by
  have hcam : preparedCam = camEvent true := by decide +kernel
  have hrun : ∃ s b, run step (init 30) (startedRun (camEvent true)) = some s ∧
      s.marks = [.handed 7 (.event 0 ['c', 'a', 'm']) b] := ⟨_, _, rfl, rfl⟩
  obtain ⟨s, b, hs, hm⟩ := hrun
  rw [← hcam] at hs
  refine ⟨s, hs, ⟨b, hm⟩, ?_⟩
  have hmark : Mark.handed 7 (.event 0 ['c', 'a', 'm']) b ∈ s.marks := by
    rw [hm]
    exact List.mem_singleton_self _
  apply (all_or_nothing_iff (fun _ => true) (fun _ => true)).2 30 _ s hs ?_ 7 0 _ b hmark
  intro event he
  rw [show startsOf (startedRun preparedCam) = [preparedCam] from rfl, List.mem_singleton] at he
  refine ⟨_, _, _, _, he, by decide +kernel, ⟨30, by decide +kernel, by decide⟩, ⟨by decide, by decide +kernel⟩, ?_⟩
  exact ⟨['s', 'o'], by decide +kernel, rfl, rfl⟩

/-- **An event without a program runs.** After an upload the directory has no shared object. `start_event` answers 0,
the loop registers, and a frame goes to a program that was never loaded. -/
theorem unloaded_program :
    ¬ AllOrNothing (fun _ => true) uploadedTree [] camOrder (camOf uploadedTree camOrder) .init (.new 30) 30 true ∧
      (camOf uploadedTree camOrder).handle = none ∧
      ∃ s b, run step (init 30) (startedRun (camOf uploadedTree camOrder)) = some s ∧
        s.marks = [.handed 7 (.event 0 ['c', 'a', 'm']) b] := by
  have hcam : camOf uploadedTree camOrder = ⟨['c', 'a', 'm'], some 30, some true, none⟩ := by decide +kernel
  rw [hcam]
  refine ⟨?_, rfl, _, _, rfl, rfl⟩
  rintro ⟨s', hs, ⟨-, hcomplete, -⟩ | ⟨hret, -⟩⟩
  · obtain ⟨program, hhandle, -⟩ := hcomplete.program
    cases hhandle
  · cases hs
    exact hret rfl

end System

end RpiCam
