import Mathlib.Data.List.Basic
import Mathlib.Data.List.Induction

/-!
# The components of a path

`parse_path` cuts a path at the slashes and resolves `.` and `..` in the text, before any directory
is looked at: `a/../b` has the one component `b`.  What it returns is in normal form (`Normal k`):
`k` times `..`, which the text could not resolve, and then names.

Two facts about texts that are put together again are used by the lookup.  A symbolic link is
followed by parsing its target, a slash and the components that are left
(`parsePath_append_slash`), and the components of a path that are joined by slashes parse to
themselves (`Normal.parsePath_join`).
-/

namespace MangoCore.Fs

open List

/-- The text of a path, a name or the target of a link. -/
abbrev Text := List Char

/-- `..` -/
def dotdot : Text := ['.', '.']

/-- One segment of the fold in `parse_path`. -/
def pushComponent (v : List Text) (s : Text) : List Text :=
  if s = [] ∨ s = ['.'] then v
  else if s = dotdot then
    if v.getLast?.all fun last => last = dotdot then v ++ [s] else v.dropLast
  else v ++ [s]

def parsePath (path : Text) : List Text := (path.splitOn '/').foldl pushComponent []

/-- `join("/")`. -/
def joinSlash (components : List Text) : Text := ['/'].intercalate components

/-- The name of an entry: a component that is looked up as it stands. -/
structure Plain (s : Text) : Prop where
  ne_nil : s ≠ []
  ne_dot : s ≠ ['.']
  ne_dotdot : s ≠ dotdot
  slash : '/' ∉ s

/-- The normal form of components: `k` times `..`, then names. -/
def Normal (k : ℕ) (components : List Text) : Prop :=
  ∃ names, components = replicate k dotdot ++ names ∧ ∀ s ∈ names, Plain s

variable {k : ℕ} {v l : List Text} {s path : Text}

theorem Plain.push (h : Plain s) (v : List Text) : pushComponent v s = v ++ [s] := by
  rw [pushComponent, if_neg (not_or.mpr ⟨h.ne_nil, h.ne_dot⟩), if_neg h.ne_dotdot]

theorem slash_notMem_dotdot : '/' ∉ dotdot := by decide

namespace Normal

theorem nil : Normal 0 [] := ⟨[], rfl, nofun⟩

theorem of_plain (h : ∀ s ∈ l, Plain s) : Normal 0 l := ⟨l, rfl, h⟩

theorem plain (h : Normal 0 l) : ∀ s ∈ l, Plain s := by
  obtain ⟨names, rfl, hnames⟩ := h
  exact hnames

/-- The first component is `..`, or all are names. -/
theorem cons_cases (h : Normal k (s :: l)) :
    (∃ j, k = j + 1 ∧ s = dotdot ∧ Normal j l) ∨ (k = 0 ∧ Plain s ∧ Normal 0 l) := by
  obtain ⟨names, hcons, hnames⟩ := h
  cases k with
  | zero => grind [of_plain]
  | succ j => grind [Normal]

theorem slash (h : Normal k l) (hs : s ∈ l) : '/' ∉ s := by
  grind [Normal, slash_notMem_dotdot, Plain.slash]

theorem append_plain (h : Normal k v) (hl : ∀ s ∈ l, Plain s) : Normal k (v ++ l) := by
  grind [Normal]

/-- One more segment. -/
theorem push (h : Normal k v) (hs : '/' ∉ s) : ∃ j, Normal j (pushComponent v s) := by
  rw [pushComponent]
  split_ifs with hempty hdots hlast
  · exact ⟨k, h⟩
  · obtain ⟨names, rfl, hnames⟩ := h
    cases names using reverseRecOn with
    | nil =>
      refine ⟨k + 1, [], ?_, nofun⟩
      rw [hdots, append_nil, append_nil, replicate_succ']
    | append_singleton names last =>
      rw [← append_assoc, getLast?_concat] at hlast
      exact absurd (of_decide_eq_true hlast)
        (hnames last (mem_append_right _ mem_cons_self)).ne_dotdot
  · obtain ⟨names, rfl, hnames⟩ := h
    cases names using reverseRecOn with
    | nil =>
      -- After `..` and at the start a `..` stays.
      grind
    | append_singleton names last =>
      refine ⟨k, names, ?_, fun x hx => hnames x (mem_append_left _ hx)⟩
      rw [← append_assoc, dropLast_concat]
  · rw [not_or] at hempty
    have hplain : Plain s := ⟨hempty.1, hempty.2, hdots, hs⟩
    exact ⟨k, h.append_plain fun x hx => by rw [mem_singleton.mp hx]; exact hplain⟩

theorem foldl_push (h : Normal k v) (hl : ∀ s ∈ l, '/' ∉ s) :
    ∃ j, Normal j (l.foldl pushComponent v) := by
  induction l generalizing k v with
  | nil => exact ⟨k, h⟩
  | cons s l ih => grind [h.push, mem_cons_self]

end Normal

theorem slash_notMem_of_mem_splitOn (hs : s ∈ path.splitOn '/') : '/' ∉ s := by
  induction path generalizing s with
  | nil => grind [splitOn_nil]
  | cons c path ih =>
    rw [splitOn_cons_eq_if_modifyHead] at hs
    split_ifs at hs
    · grind
    · cases hsplit : path.splitOn '/' with
      | nil => exact absurd hsplit (splitOn_ne_nil '/' path)
      | cons first rest =>
        rw [hsplit] at hs ih
        rcases mem_cons.mp hs with rfl | hs
        · grind
        · exact ih (mem_cons_of_mem first hs)

/-- **The components of a path are in normal form.** -/
theorem exists_normal_parsePath (path : Text) : ∃ k, Normal k (parsePath path) :=
  Normal.nil.foldl_push fun _ hs => slash_notMem_of_mem_splitOn hs

theorem foldl_push_plain (hl : ∀ s ∈ l, Plain s) :
    l.foldl pushComponent v = v ++ l := by
  induction l generalizing v with
  | nil => exact (append_nil v).symm
  | cons s l ih => grind [Plain.push]

/-- The slash at the start of an absolute path adds nothing. -/
theorem parsePath_slash : parsePath ('/' :: path) = parsePath path := by
  have hsplit : splitOn '/' ('/' :: path) = [] :: path.splitOn '/' := by
    have h := splitOn_append_cons_self (a := '/') [] path
    rwa [nil_append, splitOn_nil, singleton_append] at h
  rw [parsePath, hsplit, foldl_cons]
  rfl

/-- **Names that follow a text** are added to its components. -/
theorem parsePath_append_slash (hl : ∀ s ∈ l, Plain s) (hne : l ≠ []) :
    parsePath (path ++ '/' :: joinSlash l) = parsePath path ++ l := by
  rw [parsePath, splitOn_append_cons_self, joinSlash,
    splitOn_intercalate '/' (fun s hs => (hl s hs).slash) hne, foldl_append,
    foldl_push_plain hl, parsePath]

theorem foldl_push_dotdot (j k : ℕ) :
    (replicate k dotdot).foldl pushComponent (replicate j dotdot) =
      replicate (j + k) dotdot := by
  induction k generalizing j with
  | zero => rfl
  | succ k ih =>
    have hpush : pushComponent (replicate j dotdot) dotdot =
        replicate (j + 1) dotdot := by
      cases j with
      | zero => rfl
      | succ j => simp [dotdot, pushComponent.eq_1, replicate_succ']
    rw [replicate_succ, foldl_cons, hpush, ih, Nat.add_right_comm, Nat.add_assoc]

/-- **Components in normal form parse to themselves.** -/
theorem Normal.parsePath_join (h : Normal k l) (hne : l ≠ []) : parsePath (joinSlash l) = l := by
  have hsplit := splitOn_intercalate '/' (fun s hs => h.slash hs) hne
  obtain ⟨names, rfl, hnames⟩ := h
  rw [parsePath, joinSlash, hsplit, foldl_append]
  have hdots := foldl_push_dotdot 0 k
  grind [foldl_push_plain]

/-- Joined components neither start nor end with a slash. -/
theorem joinSlash_ends (hl : ∀ s ∈ l, s ≠ [] ∧ '/' ∉ s) (hne : l ≠ []) :
    joinSlash l ≠ [] ∧ (joinSlash l).head? ≠ some '/' ∧ (joinSlash l).getLast? ≠ some '/' := by
  induction l with
  | nil => exact absurd rfl hne
  | cons s l ih =>
    obtain ⟨hs, hslash⟩ := hl s mem_cons_self
    have hhead : s.head? ≠ some '/' := fun h => hslash (mem_of_mem_head? h)
    cases l with
    | nil =>
      have hjoin : joinSlash [s] = s := append_nil s
      grind
    | cons x l =>
      obtain ⟨hne', -, hlast⟩ := ih (fun y hy => hl y (mem_cons_of_mem s hy)) (cons_ne_nil x l)
      have hjoin : joinSlash (s :: x :: l) = s ++ '/' :: joinSlash (x :: l) := rfl
      grind [head?_append_of_ne_nil]

namespace Normal

theorem ne_nil (h : Normal k l) (hs : s ∈ l) : s ≠ [] := by grind [dotdot, Normal, Plain.ne_nil]

/-- A beginning of components in normal form. -/
theorem take (h : Normal k l) (i : ℕ) : Normal (min i k) (l.take i) := by
  grind [Normal, take_append]

end Normal
end MangoCore.Fs
