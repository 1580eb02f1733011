import Mathlib.Data.List.Infix
import Mathlib.Logic.Function.Basic
import RpiCam.Lib.Stoi

/-!
# File trees and relative paths

A `FileSystem` says what each absolute path names; its fields keep the root a directory and every entry inside one.
Paths of the program are C strings relative to the working directory, walked component by component as POSIX does.

* `put`, `prune` : the two ways an entry changes; `entry_put`, `entry_prune_of_not_prefix` are their frames;
* `walk`, `locate` : from a string to a place in the tree, through symbolic links;
* `isDirectory`, `createDirectory`, `removeAll`, `openFile`, `writeFile` : the calls of `std::filesystem` and
  `std::ofstream`. What the operating system refuses is an argument of each;
* `walk_concat`, `walkDir_keeps` : one more component, and a change that keeps the directories and the links.
-/

namespace RpiCam

inductive Node
  | dir
  | file (content : List Char)
  /-- A symbolic link. -/
  | link (target : List Char)
  deriving DecidableEq, Repr

/-- An absolute path: the components below the root. -/
abbrev Path := List (List Char)

structure FileSystem where
  entry : Path → Option Node
  root : entry [] = some .dir
  closed : ∀ p n, entry (p ++ [n]) ≠ none → entry p = some .dir

namespace FileSystem

@[ext] theorem ext {fs fs' : FileSystem} (h : ∀ p, fs.entry p = fs'.entry p) : fs = fs' := by
  obtain ⟨e, r, c⟩ := fs
  obtain ⟨e', r', c'⟩ := fs'
  have : e = e' := funext h
  subst this
  rfl

/-- A tree of the root alone. -/
def bare : FileSystem where
  entry p := if p = [] then some .dir else none
  root := rfl
  closed p n h := by simp at h

/-- What has something below it is a directory. -/
theorem dir_of_below (fs : FileSystem) {p q : Path} (hq : q ≠ []) (h : fs.entry (p ++ q) ≠ none) :
    fs.entry p = some .dir := by
  induction q using List.reverseRecOn with
  | nil => exact absurd rfl hq
  | append_singleton q n ih =>
    rw [← List.append_assoc] at h
    have hd := fs.closed _ _ h
    by_cases hq' : q = []
    · subst hq'
      simpa using hd
    · exact ih hq' (by rw [hd]; exact Option.some_ne_none _)

theorem none_below (fs : FileSystem) {p q : Path} (hp : fs.entry p ≠ some .dir) (hq : q ≠ []) :
    fs.entry (p ++ q) = none := by
  by_contra h
  exact hp (fs.dir_of_below hq h)

/-! ## Changes -/

/-- `node` at the path `q` below a directory, in the place of nothing or of what is no directory. -/
def put (fs : FileSystem) (q : Path) (node : Node) : FileSystem :=
  if h : q ≠ [] ∧ fs.entry q.dropLast = some .dir ∧ fs.entry q ≠ some .dir then
    { entry := Function.update fs.entry q (some node)
      root := by rw [Function.update_of_ne h.1.symm]; exact fs.root
      closed := by
        intro p n hne
        have hp : fs.entry p = some .dir := by
          by_cases he : p ++ [n] = q
          · rw [← he, List.dropLast_concat] at h; exact h.2.1
          · rw [Function.update_of_ne he] at hne
            exact fs.closed _ _ hne
        rw [Function.update_of_ne]
        · exact hp
        · rintro rfl
          exact h.2.2 hp }
  else fs

theorem entry_put (fs : FileSystem) {p : Path} {n : List Char} (hp : fs.entry p = some .dir)
    (hn : fs.entry (p ++ [n]) ≠ some .dir) (node : Node) (q : Path) :
    (fs.put (p ++ [n]) node).entry q = if q = p ++ [n] then some node else fs.entry q := by
  rw [put, dif_pos ⟨by simp, by rwa [List.dropLast_concat], hn⟩]
  exact Function.update_apply ..

theorem entry_put_of_ne (fs : FileSystem) {p q : Path} (node : Node) (h : q ≠ p) :
    (fs.put p node).entry q = fs.entry q := by
  unfold put
  split_ifs
  · exact Function.update_of_ne h _ _
  · rfl

/-- The entries at and below `p` go, but for the root, the survivors and the directories they are in. -/
def prune (fs : FileSystem) (p : Path) (survivors : List Path) : FileSystem where
  entry q := if p <+: q ∧ q ≠ [] ∧ ¬ ∃ s ∈ survivors, q <+: s then none else fs.entry q
  root := by simp [fs.root]
  closed := by
    intro q n hne
    split_ifs at hne with hkeep
    · exact absurd rfl hne
    · have hq := fs.closed q n hne
      rw [if_neg]
      · exact hq
      · rintro ⟨hp, hq0, hs⟩
        refine hkeep ⟨hp.trans (List.prefix_append _ _), by simp, ?_⟩
        rintro ⟨s, hs1, hs2⟩
        exact hs ⟨s, hs1, (List.prefix_append _ _).trans hs2⟩

theorem entry_prune_of_not_prefix (fs : FileSystem) {p q : Path} (survivors : List Path) (h : ¬ p <+: q) :
    (fs.prune p survivors).entry q = fs.entry q :=
  if_neg fun hp => h hp.1

theorem entry_of_prune {fs : FileSystem} {p q : Path} {survivors : List Path} {node : Node}
    (h : (fs.prune p survivors).entry q = some node) : fs.entry q = some node := by
  change (if _ then none else fs.entry q) = some node at h
  split_ifs at h
  exact h

theorem entry_prune_nil (fs : FileSystem) {p q : Path} (hp : p ≠ []) (h : p <+: q) :
    (fs.prune p []).entry q = none := by
  have hq : q ≠ [] := by
    rintro rfl
    exact hp (List.prefix_nil.mp h)
  exact if_pos ⟨h, hq, by simp⟩

/-- `prune` with the directory itself among the survivors takes what is below it and no survivor is below. -/
theorem entry_prune_below (fs : FileSystem) {p : Path} {n : List Char} :
    (fs.prune p [p]).entry (p ++ [n]) = none := by
  refine if_pos ⟨List.prefix_append _ _, by simp, ?_⟩
  rintro ⟨s, hs, hp⟩
  have := (List.mem_singleton.mp hs ▸ hp).length_le
  rw [List.length_append, List.length_singleton] at this
  omega

/-! ## Paths -/

/-- The components of a path string. -/
def components (s : List Char) : List (List Char) := (cStr s).splitOn '/'

/-- `.` and `..` name a directory that is there. -/
def isDot (c : List Char) : Bool := c == ['.'] || c == ['.', '.']

/-- Where a symbolic link in the directory `p` starts from. -/
def linkStart (p : Path) (target : List Char) : Path := if target.head? = some '/' then [] else p

/-- From `p` along the components, each step in a directory. `follow` goes on at a symbolic link. -/
def walkWith (fs : FileSystem) (follow : Path → List (List Char) → Option Path) :
    Path → List (List Char) → Option Path
  | p, [] => some p
  | p, c :: cs =>
    if fs.entry p = some .dir then
      if c = [] ∨ c = ['.'] then walkWith fs follow p cs
      else if c = ['.', '.'] then walkWith fs follow p.dropLast cs
      else match fs.entry (p ++ [c]) with
        | some (.link target) => follow (linkStart p target) (components target ++ cs)
        | _ => walkWith fs follow (p ++ [c]) cs
    else none

/-- From `p` along the components, through at most so many symbolic links. -/
def walk (fs : FileSystem) : Nat → Path → List (List Char) → Option Path
  | 0 => walkWith fs fun _ _ => none
  | links + 1 => walkWith fs (walk fs links)

def maxLinks : Nat := 40

/-- The directory the components lead to. -/
def walkDir (fs : FileSystem) (p : Path) (cs : List (List Char)) : Option Path :=
  (fs.walk maxLinks p cs).bind fun q => if fs.entry q = some .dir then some q else none

/-- The directory that holds, or would hold, the last component of `s`, and that component. Slashes at the end of `s`
do not count. -/
def locate (fs : FileSystem) (cwd : Path) (s : List Char) : Option (Path × List Char) :=
  match (components s).reverse.dropWhile (· == []) with
  | [] => none
  | last :: init => (fs.walkDir cwd init.reverse).map fun p => (p, last)

def endsInSlash (s : List Char) : Bool := (components s).getLast? == some []

/-- The directory at the end of the path is not the last entry on it: the last component is a dot, or a link that a
slash follows. -/
def indirect (fs : FileSystem) (p : Path) (last : List Char) (slash : Bool) : Bool :=
  isDot last || slash && match fs.entry (p ++ [last]) with
    | some (.link _) => true
    | _ => false

/-! ## The calls -/

def isDirectory (fs : FileSystem) (cwd : Path) (s : List Char) : Bool := (fs.walkDir cwd (components s)).isSome

/-- `std::filesystem::create_directory`: `none` where it throws. A directory that is there is no error. -/
def createDirectory (refused : Bool) (fs : FileSystem) (cwd : Path) (s : List Char) : Option FileSystem :=
  match fs.locate cwd s with
  | none => none
  | some (p, last) =>
    if isDot last then some fs
    else match fs.entry (p ++ [last]) with
      | none => if refused then none else some (fs.put (p ++ [last]) .dir)
      | some _ => if fs.isDirectory cwd s then some fs else none

/-- The existing entries at or below `t` that cannot be removed. -/
def stuck (fs : FileSystem) (t : Path) (refused : List Path) : List Path :=
  refused.filter fun s => t.isPrefixOf s && (fs.entry s).isSome

/-- `std::filesystem::remove_all`, and whether it throws. The contents go first, so a directory that cannot be removed
by this path (`.`, `..`, a link that a slash follows) is left empty. -/
def removeAll (refused : List Path) (fs : FileSystem) (cwd : Path) (s : List Char) : FileSystem × Bool :=
  match fs.locate cwd s with
  | none => (fs, false)
  | some (p, last) =>
    if fs.indirect p last (endsInSlash s) then
      match fs.walkDir cwd (components s) with
      | none => (fs, false)
      | some t => (fs.prune t (t :: fs.stuck t refused), true)
    else if fs.entry (p ++ [last]) = none then (fs, false)
    else (fs.prune (p ++ [last]) (fs.stuck (p ++ [last]) refused), !(fs.stuck (p ++ [last]) refused).isEmpty)

/-- The place of the file that the string opens, there or not. -/
def openAt (fs : FileSystem) (cwd : Path) (s : List Char) : Option Path :=
  (fs.walk maxLinks cwd (components s)).bind fun q => if fs.entry q = some .dir then none else some q

/-- The file at `q`, made empty if `trunc` holds or it is not there. -/
def create (fs : FileSystem) (q : Path) (trunc : Bool) : FileSystem :=
  if trunc ∨ fs.entry q = none then fs.put q (.file []) else fs

/-- `std::ofstream file(s)`: the place of the open file and the tree after `open`. -/
def openFile (refused : Bool) (fs : FileSystem) (cwd : Path) (s : List Char) (trunc : Bool) :
    Option (Path × FileSystem) :=
  if refused then none else (fs.openAt cwd s).map fun q => (q, fs.create q trunc)

def content (fs : FileSystem) (q : Path) : Option (List Char) :=
  match fs.entry q with
  | some (.file c) => some c
  | _ => none

/-- A write at the end of the open file `q`. Where the file was removed in the meantime, no path shows the bytes; one
that was made anew under its path counts as the file that is open. -/
def writeFile (fs : FileSystem) (q : Path) (bytes : List Char) : FileSystem :=
  match fs.content q with
  | none => fs
  | some c => fs.put q (.file (c ++ bytes))

/-- The file that a path string opens for reading. -/
def readFile (fs : FileSystem) (cwd : Path) (s : List Char) : Option (List Char) :=
  (fs.openAt cwd s).bind fs.content

/-! ## Components -/

/-- A name that a directory can hold. -/
def Ordinary (c : List Char) : Prop := c ≠ [] ∧ isDot c = false

theorem components_cons {d : List Char} (h : '\x00' ∉ d) (h' : '/' ∉ d) (s : List Char) :
    components (d ++ '/' :: s) = d :: components s := by
  have hs : cStr ('/' :: s) = '/' :: cStr s := by simp [cStr]
  rw [components, cStr_append h, hs]
  exact List.splitOn_append_cons_self_of_not_mem h' _

theorem components_single {c : List Char} (h : '\x00' ∉ c) (h' : '/' ∉ c) : components c = [c] := by
  rw [components, cStr_eq_self h]
  exact List.splitOn_eq_singleton h'

theorem components_append_nul {s : List Char} (h : '\x00' ∈ s) (t : List Char) :
    components (s ++ t) = components s := by
  rw [components, cStr_append_nul h, components]

/-- A string that `stoi` accepts begins with an ordinary component. -/
theorem components_of_stoi {s : List Char} {n : Int} (h : stoi s = .ok n) :
    ∃ c more, components s = c :: more ∧ Ordinary c := by
  obtain ⟨pre, d, rest, hs, hd, hpre⟩ := stoi_ok_digit h
  obtain ⟨x, tail, hx, hne⟩ : ∃ x tail, cStr s = x :: tail ∧ x ≠ '/' ∧ x ≠ '.' := by
    cases pre with
    | nil =>
      refine ⟨d, rest, hs, ?_, ?_⟩ <;> rintro rfl <;> exact absurd hd (by decide)
    | cons x pre =>
      refine ⟨x, pre ++ d :: rest, hs, ?_, ?_⟩ <;> rintro rfl <;>
        exact absurd (hpre _ (List.mem_cons_self ..)) (by decide)
  obtain ⟨c, more, hc⟩ := List.exists_cons_of_ne_nil (List.splitOn_ne_nil '/' tail)
  refine ⟨x :: c, more, ?_, by simp, by simp [isDot, hne.2]⟩
  rw [components, hx, List.splitOn_cons_eq_if_modifyHead, if_neg (by simpa using hne.1), hc]
  rfl

theorem locate_of_ordinary {fs : FileSystem} {cwd : Path} {s c : List Char} {cs : List (List Char)} (hc : c ≠ [])
    (h : components s = cs ++ [c] ∨ components s = cs ++ [c, []]) :
    fs.locate cwd s = (fs.walkDir cwd cs).map fun p => (p, c) := by
  have : (components s).reverse.dropWhile (· == []) = c :: cs.reverse := by
    rcases h with h | h <;> simp [h, hc]
  rw [locate, this]
  simp only [List.reverse_reverse]

/-! ## One more component -/

/-- From the directory `p` to the component `c`, which is no link. -/
def enter (fs : FileSystem) (p : Path) (c : List Char) : Option Path :=
  if fs.entry p = some .dir then
    if c = [] ∨ c = ['.'] then some p
    else if c = ['.', '.'] then some p.dropLast
    else some (p ++ [c])
  else none

theorem enter_of_ordinary {fs : FileSystem} {p : Path} {c : List Char} (hc : Ordinary c)
    (hp : fs.entry p = some .dir) : fs.enter p c = some (p ++ [c]) := by
  obtain ⟨h1, h2⟩ := hc
  simp only [isDot, Bool.or_eq_false_iff, beq_eq_false_iff_ne, ne_eq] at h2
  rw [enter, if_pos hp, if_neg (by simp [h1, h2.1]), if_neg h2.2]

/-- Nothing is a symbolic link where an ordinary component of this name is reached. -/
def NoLink (fs : FileSystem) (r : Option Path) (c : List Char) : Prop :=
  Ordinary c → ∀ q, r = some q → ∀ t, fs.entry (q ++ [c]) ≠ some (.link t)

theorem walkWith_concat {fs : FileSystem} {follow : Path → List (List Char) → Option Path} {c : List Char}
    (hf : ∀ p cs, NoLink fs (follow p cs) c → follow p (cs ++ [c]) = (follow p cs).bind (fs.enter · c)) (p : Path)
    (cs : List (List Char)) (h : NoLink fs (fs.walkWith follow p cs) c) :
    fs.walkWith follow p (cs ++ [c]) = (fs.walkWith follow p cs).bind (fs.enter · c) := by
  induction cs generalizing p with
  | nil =>
    simp only [List.nil_append, walkWith, Option.bind_some, enter]
    split_ifs with h1 h2 h3
    · rfl
    · rfl
    · have hc : Ordinary c := by
        rw [not_or] at h2
        exact ⟨h2.1, by simp [isDot, h2.2, h3]⟩
      split
      · exact absurd ‹_› (h hc p rfl _)
      · rfl
    · rfl
  | cons d cs ih =>
    simp only [List.cons_append, walkWith] at h ⊢
    split_ifs at h ⊢
    · exact ih _ h
    · exact ih _ h
    · split
      · rename_i t ht
        rw [ht] at h
        rw [← List.append_assoc]
        exact hf _ _ h
      · rename_i hne
        refine ih _ fun hc q hq => h hc q ?_
        split
        · exact absurd ‹_› (hne _)
        · exact hq
    · rfl

/-- The last component of a path, where it is no symbolic link. -/
theorem walk_concat {fs : FileSystem} {links : Nat} {p : Path} {cs : List (List Char)} {c : List Char}
    (h : NoLink fs (fs.walk links p cs) c) :
    fs.walk links p (cs ++ [c]) = (fs.walk links p cs).bind (fs.enter · c) := by
  induction links generalizing p cs with
  | zero => exact walkWith_concat (fun _ _ _ => rfl) p cs h
  | succ links ih => exact walkWith_concat (fun _ _ h => ih h) p cs h

theorem walkWith_append_none {fs : FileSystem} {follow : Path → List (List Char) → Option Path}
    (hf : ∀ p cs ds, follow p cs = none → follow p (cs ++ ds) = none) {p : Path} {cs : List (List Char)}
    (ds : List (List Char)) (h : fs.walkWith follow p cs = none) : fs.walkWith follow p (cs ++ ds) = none := by
  induction cs generalizing p with
  | nil => cases h
  | cons d cs ih =>
    simp only [List.cons_append, walkWith] at h ⊢
    split_ifs at h ⊢
    · exact ih h
    · exact ih h
    · split
      · rename_i t ht
        rw [ht] at h
        rw [← List.append_assoc]
        exact hf _ _ _ h
      · rename_i hne
        refine ih ?_
        split at h
        · exact absurd ‹_› (hne _)
        · exact h
    · rfl

theorem walk_append_none {fs : FileSystem} {links : Nat} {p : Path} {cs : List (List Char)} (ds : List (List Char))
    (h : fs.walk links p cs = none) : fs.walk links p (cs ++ ds) = none := by
  induction links generalizing p cs ds with
  | zero => exact walkWith_append_none (fun _ _ _ _ => rfl) ds h
  | succ links ih => exact walkWith_append_none (fun _ _ ds h => ih ds h) ds h

/-! ## Other trees with the same directories and links -/

/-- Every directory and every link of `fs` is one of `fs'`. -/
def Keeps (fs fs' : FileSystem) : Prop :=
  ∀ q node, fs.entry q = some node → (∀ c, node ≠ .file c) → fs'.entry q = some node

theorem Keeps.dir {fs fs' : FileSystem} (h : Keeps fs fs') {q : Path} (hq : fs.entry q = some .dir) :
    fs'.entry q = some .dir := h q _ hq (by simp)

theorem keeps_of_prune (fs : FileSystem) (p : Path) (survivors : List Path) : Keeps (fs.prune p survivors) fs :=
  fun _ _ h _ => entry_of_prune h

theorem keeps_put (fs : FileSystem) {q : Path} (node : Node) (hq : ∀ n, fs.entry q = some n → ∃ c, n = .file c) :
    Keeps fs (fs.put q node) := by
  intro r n hr hn
  rw [entry_put_of_ne]
  · exact hr
  · rintro rfl
    obtain ⟨c, rfl⟩ := hq n hr
    exact hn c rfl

theorem dir_of_walkWith {fs : FileSystem} {follow : Path → List (List Char) → Option Path} {p q : Path}
    {cs : List (List Char)} (h : fs.walkWith follow p cs = some q) (hq : fs.entry q = some .dir) :
    fs.entry p = some .dir := by
  cases cs with
  | nil => cases h; exact hq
  | cons c cs =>
    simp only [walkWith] at h
    split_ifs at h <;> assumption

theorem walkWith_keeps {fs fs' : FileSystem} (hk : Keeps fs fs') {f f' : Path → List (List Char) → Option Path}
    {q : Path} (hq : fs.entry q = some .dir) (hf : ∀ p cs, f p cs = some q → f' p cs = some q) {p : Path}
    {cs : List (List Char)} (h : fs.walkWith f p cs = some q) : fs'.walkWith f' p cs = some q := by
  induction cs generalizing p with
  | nil => exact h
  | cons c cs ih =>
    have hp := dir_of_walkWith h hq
    simp only [walkWith, if_pos hp, if_pos (hk.dir hp)] at h ⊢
    split_ifs at h ⊢
    · exact ih h
    · exact ih h
    · split at h
      · rename_i t ht
        rw [hk _ _ ht (by simp)]
        exact hf _ _ h
      · simp only [hk.dir (dir_of_walkWith h hq)]
        exact ih h

/-- Where more directories and links are, a path leads to the same directory. -/
theorem walkDir_keeps {fs fs' : FileSystem} (hk : Keeps fs fs') {p q : Path} {cs : List (List Char)}
    (h : fs.walkDir p cs = some q) : fs'.walkDir p cs = some q := by
  simp only [walkDir, Option.bind_eq_some_iff] at h ⊢
  obtain ⟨r, hr, hd⟩ := h
  split_ifs at hd with hdir
  rw [Option.some.injEq] at hd
  subst hd
  refine ⟨r, ?_, if_pos (hk.dir hdir)⟩
  generalize maxLinks = links at hr ⊢
  induction links generalizing p cs with
  | zero => exact walkWith_keeps hk hdir (fun _ _ h => h) hr
  | succ links ih => exact walkWith_keeps hk hdir (fun _ _ h => ih h) hr

theorem walkDir_eq_some {fs : FileSystem} {p q : Path} {cs : List (List Char)} :
    fs.walkDir p cs = some q ↔ fs.walk maxLinks p cs = some q ∧ fs.entry q = some .dir := by
  simp only [walkDir, Option.bind_eq_some_iff]
  constructor
  · rintro ⟨r, hr, hd⟩
    split_ifs at hd with hdir
    cases hd
    exact ⟨hr, hdir⟩
  · rintro ⟨hr, hdir⟩
    exact ⟨q, hr, if_pos hdir⟩

theorem walkDir_of_append {fs : FileSystem} {p r : Path} {cs ds : List (List Char)} {c : List Char}
    (h : fs.walk maxLinks p (cs ++ c :: ds) = some r) : ∃ q, fs.walkDir p cs = some q := by
  cases hq : fs.walk maxLinks p cs with
  | none => rw [walk_append_none _ hq] at h; cases h
  | some q =>
    refine ⟨q, walkDir_eq_some.mpr ⟨hq, ?_⟩⟩
    by_contra hdir
    have hnone : fs.walk maxLinks p (cs ++ [c]) = none := by
      rw [walk_concat, hq]
      · simp [enter, hdir]
      · rintro - q' hq' t ht
        rw [hq, Option.some.injEq] at hq'
        rw [← hq', fs.none_below hdir (by simp)] at ht
        cases ht
    rw [List.append_cons, walk_append_none _ hnone] at h
    cases h

theorem walkDir_concat_nil {fs : FileSystem} {p : Path} {cs : List (List Char)} :
    fs.walkDir p (cs ++ [[]]) = fs.walkDir p cs := by
  have h : NoLink fs (fs.walk maxLinks p cs) [] := fun hc => absurd rfl hc.1
  rw [walkDir, walk_concat h, walkDir, Option.bind_assoc]
  congr 1
  funext q
  simp only [enter, true_or, if_true]
  split_ifs with hq
  · simp [hq]
  · rfl

theorem walk_child {fs : FileSystem} {p q : Path} {cs : List (List Char)} {c : List Char} (hc : Ordinary c)
    (hq : fs.walkDir p cs = some q) (hl : ∀ t, fs.entry (q ++ [c]) ≠ some (.link t)) :
    fs.walk maxLinks p (cs ++ [c]) = some (q ++ [c]) := by
  obtain ⟨hw, hdir⟩ := walkDir_eq_some.mp hq
  rw [walk_concat, hw]
  · exact enter_of_ordinary hc hdir
  · rintro - q' hq'
    rw [hw, Option.some.injEq] at hq'
    rw [← hq']
    exact hl

theorem walk_dot {fs : FileSystem} {links : Nat} {p : Path} (hp : fs.entry p = some .dir) (cs : List (List Char)) :
    fs.walk links p (['.'] :: cs) = fs.walk links p cs := by
  cases links <;> simp [walk, walkWith, hp]

theorem dir_of_walkDir {fs : FileSystem} {p q : Path} {c : List Char} {cs : List (List Char)}
    (h : fs.walkDir p (c :: cs) = some q) : fs.entry p = some .dir := by
  obtain ⟨hw, hq⟩ := walkDir_eq_some.mp h
  exact dir_of_walkWith (show fs.walkWith (fs.walk 39) p (c :: cs) = some q from hw) hq

end FileSystem

end RpiCam
