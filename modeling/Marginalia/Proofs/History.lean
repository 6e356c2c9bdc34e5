import Marginalia.History
import Mathlib.Data.List.Induction
import Mathlib.Data.List.Infix

/-! # The undo history beside a stack without a bound

A log with a bound and a stack without one go through the same operations. The log always holds
the newest changes of the stack, so a change that it gives back is the one that the stack gives
back. What the bound costs is only that the log may say it is empty, and the changes that are lost
are the oldest ones, one at a time.
-/

namespace Marginalia

namespace History

/-- What is asked of an undo log. -/
inductive Operation
  | add (edit : Edit)
  /-- The newest change is taken back. -/
  | last
  | clear
  deriving DecidableEq

/-- Carries out an operation; the answer is the change that is taken back. -/
def perform (history : History) : Operation → Option Edit × History
  | .add edit => (none, history.add edit)
  | .last => (history.newest?, history.dropNewest)
  | .clear => (none, history.clear)

/-- The log after operations on an empty one. -/
def ofOperations (capacity : Nat) (operations : List Operation) : History :=
  operations.foldl (fun history operation => (history.perform operation).2) { capacity }

/-- What the log answers to the operation at a place. -/
def answerAt (capacity : Nat) (operations : List Operation) (place : Nat) : Option Edit :=
  operations[place]?.bind fun operation =>
    ((ofOperations capacity (operations.take place)).perform operation).1

/-- A stack of changes without a bound, the oldest first, each with the place of the operation
that added it. -/
structure Stack where
  /-- How many operations there were. -/
  time : Nat := 0
  entries : List (Nat × Edit) := []

namespace Stack

def edits (stack : Stack) : List Edit := stack.entries.map Prod.snd

def perform (stack : Stack) : Operation → Option (Nat × Edit) × Stack
  | .add edit => (none, ⟨stack.time + 1, stack.entries ++ [(stack.time, edit)]⟩)
  | .last => (stack.entries.getLast?, ⟨stack.time + 1, stack.entries.dropLast⟩)
  | .clear => (none, ⟨stack.time + 1, []⟩)

def ofOperations (operations : List Operation) : Stack :=
  operations.foldl (fun stack operation => (stack.perform operation).2) { }

def answerAt (operations : List Operation) (place : Nat) : Option (Nat × Edit) :=
  operations[place]?.bind fun operation =>
    ((ofOperations (operations.take place)).perform operation).1

variable {operations more : List Operation} {entry : Nat × Edit} {place : Nat}

theorem ofOperations_concat (operation : Operation) :
    ofOperations (operations ++ [operation]) = ((ofOperations operations).perform operation).2 :=
  List.foldl_concat ..

theorem time_ofOperations (operations : List Operation) :
    (ofOperations operations).time = operations.length := by
  induction operations using List.reverseRecOn with
  | nil => rfl
  | append_singleton operations operation ih =>
      rw [ofOperations_concat, List.length_append, List.length_singleton, ← ih]
      cases operation <;> rfl

/-- An entry after an operation was there before, or is the change that was just added. -/
theorem mem_of_mem_perform {stack : Stack} {operation : Operation}
    (h : entry ∈ (stack.perform operation).2.entries) :
    entry ∈ stack.entries ∨ (entry.1 = stack.time ∧ operation = .add entry.2) := by
  cases operation with
  | add edit =>
      rcases List.mem_append.mp h with hmem | hnew
      · exact Or.inl hmem
      · obtain rfl := List.mem_singleton.mp hnew
        exact Or.inr ⟨rfl, rfl⟩
  | last => exact Or.inl (List.mem_of_mem_dropLast h)
  | clear => cases h

/-- An entry stands for the operation that added it. -/
theorem getElem?_of_mem (h : entry ∈ (ofOperations operations).entries) :
    operations[entry.1]? = some (.add entry.2) := by
  induction operations using List.reverseRecOn with
  | nil => cases h
  | append_singleton operations operation ih =>
      rw [ofOperations_concat] at h
      rcases mem_of_mem_perform h with hmem | ⟨htime, rfl⟩
      · have hadded := ih hmem
        obtain ⟨hlt, -⟩ := List.getElem?_eq_some_iff.mp hadded
        rw [List.getElem?_append_left hlt]
        exact hadded
      · rw [htime, time_ofOperations]
        exact List.getElem?_concat_length

theorem lt_of_mem (h : entry ∈ (ofOperations operations).entries) :
    entry.1 < operations.length := by
  obtain ⟨hlt, -⟩ := List.getElem?_eq_some_iff.mp (getElem?_of_mem h)
  exact hlt

/-- The places of the entries increase, so no two entries share one. -/
theorem pairwise_entries (operations : List Operation) :
    (ofOperations operations).entries.Pairwise fun first second => first.1 < second.1 := by
  induction operations using List.reverseRecOn with
  | nil => exact List.Pairwise.nil
  | append_singleton operations operation ih =>
      rw [ofOperations_concat]
      cases operation with
      | add edit =>
          apply List.pairwise_append.mpr
          refine ⟨ih, List.pairwise_singleton _ _, ?_⟩
          intro first hfirst second hsecond
          obtain rfl := List.mem_singleton.mp hsecond
          rw [time_ofOperations]
          exact lt_of_mem hfirst
      | last => exact ih.sublist (List.dropLast_sublist _)
      | clear => exact List.Pairwise.nil

/-- An entry that is gone does not come back: later entries were added later. -/
theorem mem_or_le_of_mem_append (h : entry ∈ (ofOperations (operations ++ more)).entries) :
    entry ∈ (ofOperations operations).entries ∨ operations.length ≤ entry.1 := by
  induction more using List.reverseRecOn with
  | nil =>
      rw [List.append_nil] at h
      exact Or.inl h
  | append_singleton more operation ih =>
      rw [← List.append_assoc, ofOperations_concat] at h
      rcases mem_of_mem_perform h with hmem | ⟨htime, -⟩
      · exact ih hmem
      · rw [time_ofOperations, List.length_append] at htime
        exact Or.inr (htime ▸ Nat.le_add_right ..)

/-- Only the operation that takes back has an answer: the newest entry at its place. -/
theorem answerAt_eq_some_iff :
    answerAt operations place = some entry ↔ operations[place]? = some .last ∧
      (ofOperations (operations.take place)).entries.getLast? = some entry := by
  unfold answerAt
  cases operations[place]? with
  | none => simp
  | some operation => cases operation <;> simp [perform]

/-- A change that was taken back is not in the stack any more. -/
theorem not_mem_of_answerAt (h : answerAt operations place = some entry) :
    entry ∉ (ofOperations (operations.take (place + 1))).entries := by
  obtain ⟨hlast, hnewest⟩ := answerAt_eq_some_iff.mp h
  have hpairwise := pairwise_entries (operations.take place)
  obtain ⟨older, hentries⟩ := List.getLast?_eq_some_iff.mp hnewest
  rw [List.take_add_one, hlast, Option.toList_some, ofOperations_concat, perform, hentries,
    List.dropLast_concat]
  rw [hentries, List.pairwise_append] at hpairwise
  intro hmem
  exact Nat.lt_irrefl _ (hpairwise.2.2 entry hmem entry List.mem_cons_self)

/-- Two operations that take back do not give the same addition. -/
theorem answerAt_ne {earlier later : Nat} {edit edit' : Edit} (hlt : earlier < later)
    (h : answerAt operations earlier = some (place, edit)) :
    answerAt operations later ≠ some (place, edit') := by
  intro h'
  obtain ⟨-, hnewest⟩ := answerAt_eq_some_iff.mp h
  obtain ⟨hlast, hnewest'⟩ := answerAt_eq_some_iff.mp h'
  obtain ⟨hlength, -⟩ := List.getElem?_eq_some_iff.mp hlast
  have hmem := List.mem_of_getLast? hnewest
  have hmem' := List.mem_of_getLast? hnewest'
  have hplace : place < earlier := by
    have hbound := lt_of_mem hmem
    rw [List.length_take] at hbound
    omega
  -- Both are the change that the operation at the place added.
  have hsame : edit' = edit := by
    have hadded := getElem?_of_mem hmem
    have hadded' := getElem?_of_mem hmem'
    rw [List.getElem?_take_of_lt (by omega)] at hadded hadded'
    rw [hadded] at hadded'
    simpa using hadded'.symm
  have hsplit : operations.take later =
      operations.take (earlier + 1) ++ (operations.take later).drop (earlier + 1) := by
    have htake : operations.take (earlier + 1) = (operations.take later).take (earlier + 1) := by
      rw [List.take_take, Nat.min_eq_left (Nat.succ_le_of_lt hlt)]
    rw [htake, List.take_append_drop]
  rw [hsplit, hsame] at hmem'
  rcases mem_or_le_of_mem_append hmem' with hin | hle
  · exact not_mem_of_answerAt h hin
  · rw [List.length_take] at hle
    omega

theorem place_unique {first second : Nat} {edit edit' : Edit}
    (hfirst : answerAt operations first = some (place, edit))
    (hsecond : answerAt operations second = some (place, edit')) : first = second := by
  rcases Nat.lt_trichotomy first second with hlt | heq | hlt
  · exact absurd hsecond (answerAt_ne hlt hfirst)
  · exact heq
  · exact absurd hfirst (answerAt_ne hlt hsecond)

end Stack

/-! ## The log beside the stack -/

variable {history : History} {stack : Stack} {edit : Edit}

/-- A log that is not over its bound takes a change in and loses its oldest one when it is
full; without any room that is the new change itself. -/
theorem entries_add (h : history.size ≤ history.capacity) :
    (history.add edit).entries =
      (history.entries ++ [edit]).drop (history.size + 1 - history.capacity) := by
  by_cases hzero : history.capacity = 0
  · have hnil : history.entries = [] := List.eq_nil_of_length_eq_zero (by
      rw [size] at h
      omega)
    simp [add, size, hzero, hnil]
  · have hle : history.size + 1 - history.capacity ≤ history.entries.length := by
      rw [size] at h ⊢
      omega
    rw [List.drop_append_of_le_length hle]
    simp [add, hzero]

theorem size_add (h : history.size ≤ history.capacity) :
    (history.add edit).size = min history.capacity (history.size + 1) := by
  rw [size, entries_add h, List.length_drop, List.length_append, List.length_singleton]
  simp only [size] at h ⊢
  omega

theorem size_add_le (h : history.size ≤ history.capacity) :
    (history.add edit).size ≤ (history.add edit).capacity := by
  rw [capacity_add, size_add h]
  exact Nat.min_le_left ..

/-- Whether a log is within its bound and holds the newest changes of a stack. -/
structure Trails (history : History) (stack : Stack) : Prop where
  size_le : history.size ≤ history.capacity
  suffix : history.entries <:+ stack.edits

theorem dropLast_suffix_dropLast {α : Type} {first second : List α} (h : first <:+ second) :
    first.dropLast <:+ second.dropLast := by
  obtain ⟨front, rfl⟩ := h
  rcases first.eq_nil_or_concat with rfl | ⟨rest, last, hconcat⟩
  · exact List.nil_suffix
  · rw [List.concat_eq_append] at hconcat
    rw [hconcat, ← List.append_assoc, List.dropLast_concat, List.dropLast_concat]
    exact List.suffix_append front rest

/-- A log that has an answer has the one of the stack. -/
theorem Trails.newest?_eq (h : history.Trails stack) (hnewest : history.newest? = some edit) :
    stack.edits.getLast? = some edit := by
  obtain ⟨front, hfront⟩ := h.suffix
  rw [newest?] at hnewest
  rw [← hfront, List.getLast?_append, hnewest, Option.some_or]

/-- The step: every operation keeps the log behind the stack. -/
theorem Trails.perform (h : history.Trails stack) (operation : Operation) :
    (history.perform operation).2.Trails (stack.perform operation).2 := by
  cases operation with
  | add edit =>
      constructor
      · exact size_add_le h.size_le
      · have hedits : (stack.perform (.add edit)).2.edits = stack.edits ++ [edit] := by
          simp [Stack.perform, Stack.edits]
        rw [hedits, History.perform, entries_add h.size_le]
        exact (List.drop_suffix ..).trans (List.suffix_append_self_iff.mpr h.suffix)
  | last =>
      constructor
      · simp only [History.perform, dropNewest, size, List.length_dropLast]
        exact Nat.le_trans (Nat.sub_le ..) h.size_le
      · have hedits : (stack.perform .last).2.edits = stack.edits.dropLast := by
          simp [Stack.perform, Stack.edits, List.map_dropLast]
        rw [hedits]
        exact dropLast_suffix_dropLast h.suffix
  | clear => exact ⟨Nat.zero_le _, List.nil_suffix⟩

theorem trails_ofOperations (capacity : Nat) (operations : List Operation) :
    (ofOperations capacity operations).Trails (Stack.ofOperations operations) := by
  induction operations using List.reverseRecOn with
  | nil => exact ⟨Nat.zero_le _, List.nil_suffix⟩
  | append_singleton operations operation ih =>
      rw [ofOperations, List.foldl_concat, Stack.ofOperations_concat]
      exact ih.perform operation

theorem capacity_ofOperations (capacity : Nat) (operations : List Operation) :
    (ofOperations capacity operations).capacity = capacity := by
  induction operations using List.reverseRecOn with
  | nil => rfl
  | append_singleton operations operation ih =>
      rw [ofOperations, List.foldl_concat]
      cases operation with
      | add edit => exact (capacity_add ..).trans ih
      | last => exact ih
      | clear => exact ih

/-- A log that gives nothing back is empty. -/
theorem answerAt_eq_none_iff {capacity place : Nat} {operations : List Operation}
    (h : operations[place]? = some .last) :
    answerAt capacity operations place = none ↔
      (ofOperations capacity (operations.take place)).entries = [] := by
  rw [answerAt, h, Option.bind_some]
  exact List.getLast?_eq_none_iff

/-- A change that the log gives back at a place is the one that the stack gives back there. -/
theorem exists_answerAt_stack {capacity place : Nat} {operations : List Operation}
    (h : answerAt capacity operations place = some edit) :
    ∃ source, Stack.answerAt operations place = some (source, edit) := by
  unfold answerAt at h
  cases hoperation : operations[place]? with
  | none => simp [hoperation] at h
  | some operation =>
      rw [hoperation, Option.bind_some] at h
      cases operation with
      | add edit => cases h
      | last =>
          have hlast := (trails_ofOperations capacity (operations.take place)).newest?_eq h
          rw [Stack.edits, List.getLast?_map, Option.map_eq_some_iff] at hlast
          obtain ⟨⟨source, edit⟩, hentry, rfl⟩ := hlast
          exact ⟨source, Stack.answerAt_eq_some_iff.mpr ⟨hoperation, hentry⟩⟩
      | clear => cases h

/-- After any operations the log holds the newest changes of the stack, not more than its bound.
Whatever it gave back is what the stack gave back at the same place: a change that was added
before, and whose addition was given back nowhere else. It gave nothing back only where it was
empty. One more change makes the log longer by one unless it is full, and at most the oldest
change is lost by it. -/
theorem answers_as_stack (capacity : Nat) (operations : List Operation) :
    let log := ofOperations capacity operations
    log.entries <:+ (Stack.ofOperations operations).edits ∧
    log.size ≤ capacity ∧
    (∀ place edit, answerAt capacity operations place = some edit →
      ∃ source < place, operations[source]? = some (.add edit) ∧
        Stack.answerAt operations place = some (source, edit) ∧
        ∀ other edit', Stack.answerAt operations other = some (source, edit') → other = place) ∧
    (∀ place, operations[place]? = some .last →
      (answerAt capacity operations place = none ↔
        (ofOperations capacity (operations.take place)).entries = [])) ∧
    ∀ edit, (log.add edit).size = min capacity (log.size + 1) ∧
      ∃ lost, lost.length ≤ 1 ∧ log.entries ++ [edit] = lost ++ (log.add edit).entries := by
  intro log
  have htrails := trails_ofOperations capacity operations
  have hcapacity : log.capacity = capacity := capacity_ofOperations capacity operations
  refine ⟨htrails.suffix, hcapacity ▸ htrails.size_le, ?_, fun _ => answerAt_eq_none_iff, ?_⟩
  · intro place edit hanswer
    obtain ⟨source, hsource⟩ := exists_answerAt_stack hanswer
    have hmem := List.mem_of_getLast? (Stack.answerAt_eq_some_iff.mp hsource).2
    have hbefore : source < place := by
      have hlt := Stack.lt_of_mem hmem
      rw [List.length_take] at hlt
      omega
    have hadded := Stack.getElem?_of_mem hmem
    rw [List.getElem?_take_of_lt hbefore] at hadded
    exact ⟨source, hbefore, hadded, hsource, fun other edit' hother =>
      Stack.place_unique hother hsource⟩
  · intro edit
    have hroom : log.size ≤ log.capacity := htrails.size_le
    refine ⟨hcapacity ▸ size_add hroom,
      (log.entries ++ [edit]).take (log.size + 1 - log.capacity), ?_, ?_⟩
    · rw [List.length_take]
      omega
    · rw [entries_add hroom, List.take_append_drop]

-- The third change pushes the first one out, so the log is empty when the stack gives it back.
example : let edits := [0, 1, 2].map fun line => (⟨line, "a", "b"⟩ : Edit)
    let operations := edits.map Operation.add ++ [.last, .last, .last, .last]
    ([3, 4, 5, 6].map fun place => (answerAt 2 operations place).map Edit.line) =
      [some 2, some 1, none, none] ∧
    ([3, 4, 5, 6].map fun place => (Stack.answerAt operations place).map Prod.fst) =
      [some 2, some 1, some 0, none] := by
  decide

end History

end Marginalia
