import OpenDelta.Data.ByteFile

/-!
# A store of files

Contents by file, and a map from paths to the files they lead to: links,
case-insensitive names and `..` make different paths lead to one file.
-/

namespace OpenDelta

structure FileStore where
  resolve : String → String
  content : String → Option Bytes

namespace FileStore

def read (s : FileStore) (path : String) : Option Bytes := s.content (s.resolve path)

def write (s : FileStore) (path : String) (bytes : Bytes) : FileStore :=
  { s with content := fun file => if file = s.resolve path then some bytes else s.content file }

def delete (s : FileStore) (path : String) : FileStore :=
  { s with content := fun file => if file = s.resolve path then none else s.content file }

@[simp] theorem resolve_delete (s : FileStore) (path : String) : (s.delete path).resolve = s.resolve := rfl

@[simp] theorem read_write (s : FileStore) (path : String) (bytes : Bytes) :
    (s.write path bytes).read path = some bytes := by
  simp [read, write]

@[simp] theorem read_delete (s : FileStore) (path : String) : (s.delete path).read path = none := by
  simp [read, delete]

/-- Another file is not touched by a write. -/
theorem read_write_of_ne {s : FileStore} {path other : String} (ne : s.resolve other ≠ s.resolve path)
    (bytes : Bytes) : (s.write path bytes).read other = s.read other := by
  simp [read, write, ne]

theorem read_delete_of_ne {s : FileStore} {path other : String} (ne : s.resolve other ≠ s.resolve path) :
    (s.delete path).read other = s.read other := by
  simp [read, delete, ne]

/-- What is not there does not appear by a deletion. -/
theorem read_delete_of_none {s : FileStore} {path : String} (missing : s.read path = none) (other : String) :
    (s.delete other).read path = none := by
  by_cases same : s.resolve path = s.resolve other
  · simp [read, delete, same]
  · rw [read_delete_of_ne same, missing]

/-- What is there after a deletion was there before it. -/
theorem read_of_delete {s : FileStore} {path other : String} {bytes : Bytes}
    (read : (s.delete other).read path = some bytes) : s.read path = some bytes := by
  cases before : s.read path with
  | none => rw [read_delete_of_none before] at read; cases read
  | some held =>
    have ne : s.resolve path ≠ s.resolve other := by
      intro same
      simp [FileStore.read, delete, same] at read
    rw [← before, ← read_delete_of_ne ne, read]

/-- A write takes the place of what was there, deleted or not. -/
theorem write_delete (s : FileStore) (path : String) (bytes : Bytes) :
    (s.delete path).write path bytes = s.write path bytes := by
  simp only [write, delete, mk.injEq, true_and]
  funext file
  split <;> rfl

end FileStore

/-! ## Operations -/

/-- An operation on a store. -/
inductive FileOperation where
  | delete (path : String)
  | write (path : String) (bytes : Bytes)

/-- The path an operation is made on. -/
def FileOperation.path : FileOperation → String
  | delete path => path
  | write path _ => path

namespace FileStore

def perform (s : FileStore) : FileOperation → FileStore
  | .delete path => s.delete path
  | .write path bytes => s.write path bytes

/-- Operations one after another. -/
def performAll (s : FileStore) (operations : List FileOperation) : FileStore := operations.foldl perform s

@[simp] theorem performAll_nil (s : FileStore) : s.performAll [] = s := rfl

@[simp] theorem performAll_cons (s : FileStore) (o : FileOperation) (operations : List FileOperation) :
    s.performAll (o :: operations) = (s.perform o).performAll operations := rfl

theorem performAll_append (s : FileStore) (before after : List FileOperation) :
    s.performAll (before ++ after) = (s.performAll before).performAll after := List.foldl_append ..

theorem resolve_perform (s : FileStore) (o : FileOperation) : (s.perform o).resolve = s.resolve := by
  cases o <;> rfl

theorem resolve_performAll (s : FileStore) (operations : List FileOperation) :
    (s.performAll operations).resolve = s.resolve := by
  induction operations generalizing s with
  | nil => rfl
  | cons o operations ih => rw [performAll_cons, ih, resolve_perform]

/-- Operations on other files leave a file alone. -/
theorem read_performAll_of_ne {s : FileStore} {operations : List FileOperation} {path : String}
    (others : ∀ o ∈ operations, s.resolve path ≠ s.resolve o.path) :
    (s.performAll operations).read path = s.read path := by
  induction operations generalizing s with
  | nil => rfl
  | cons o operations ih =>
    rw [performAll_cons, ih]
    · have other := others o (List.mem_cons_self ..)
      cases o with
      | delete p => exact read_delete_of_ne other
      | write p bytes => exact read_write_of_ne other bytes
    · intro o' member
      rw [resolve_perform]
      exact others o' (List.mem_cons_of_mem _ member)

theorem read_performAll_of_none {s : FileStore} {operations : List FileOperation} {path : String}
    (deletes : ∀ o ∈ operations, ∃ p, o = .delete p) (missing : s.read path = none) :
    (s.performAll operations).read path = none := by
  induction operations generalizing s with
  | nil => exact missing
  | cons o operations ih =>
    obtain ⟨p, rfl⟩ := deletes o (List.mem_cons_self ..)
    exact ih (fun o' member => deletes o' (List.mem_cons_of_mem _ member)) (read_delete_of_none missing p)

/-- Deletions take away every file that one of them is on. -/
theorem read_performAll_deletes {s : FileStore} {operations : List FileOperation} {path : String}
    (deletes : ∀ o ∈ operations, ∃ p, o = .delete p) (hit : ∃ o ∈ operations, s.resolve path = s.resolve o.path) :
    (s.performAll operations).read path = none := by
  induction operations generalizing s with
  | nil => simp at hit
  | cons o operations ih =>
    obtain ⟨p, rfl⟩ := deletes o (List.mem_cons_self ..)
    have later : ∀ o' ∈ operations, ∃ p', o' = .delete p' := fun o' member => deletes o' (List.mem_cons_of_mem _ member)
    obtain ⟨o', member, same⟩ := hit
    rcases List.mem_cons.mp member with rfl | member
    · have gone : (s.delete p).read path = none := by
        rw [FileOperation.path] at same
        simp [read, delete, same]
      exact read_performAll_of_none (s := s.delete p) later gone
    · exact ih later ⟨o', member, same⟩

end FileStore

/-- Operations that delete every file before they write it. -/
inductive Replaces : List FileOperation → Prop where
  | nil : Replaces []
  | delete (path : String) {rest : List FileOperation} : Replaces rest → Replaces (.delete path :: rest)
  | replace (path : String) (bytes : Bytes) {rest : List FileOperation} : Replaces rest →
      Replaces (.delete path :: .write path bytes :: rest)

theorem Replaces.append {before after : List FileOperation} (first : Replaces before) (second : Replaces after) :
    Replaces (before ++ after) := by
  induction first with
  | nil => exact second
  | delete path _ ih => exact .delete path ih
  | replace path bytes _ ih => exact .replace path bytes ih

/-- A file keeps its bytes through all of the operations. -/
def FileStore.Keeps (s : FileStore) (path : String) (bytes : Bytes) (operations : List FileOperation) : Prop :=
  ∀ done rest, operations = done ++ rest → (s.performAll done).read path = some bytes

/-- A file is kept exactly if no operation is on it. -/
theorem Replaces.keeps_iff {operations : List FileOperation} (replaces : Replaces operations) {s : FileStore}
    {path : String} {bytes : Bytes} (read : s.read path = some bytes) :
    s.Keeps path bytes operations ↔ ∀ o ∈ operations, s.resolve path ≠ s.resolve o.path := by
  constructor
  · intro keeps
    -- After a deletion the file would be gone.
    have deleted : ∀ done p rest, operations = done ++ .delete p :: rest → s.resolve path ≠ s.resolve p := by
      intro done p rest split same
      have gone := keeps (done ++ [.delete p]) rest (by rw [split, List.append_assoc]; rfl)
      rw [FileStore.performAll_append] at gone
      have target : (s.performAll done).resolve path = (s.performAll done).resolve p := by
        rw [FileStore.resolve_performAll, same]
      simp [FileStore.perform, FileStore.read, FileStore.delete, target] at gone
    have all : ∀ done rest, operations = done ++ rest → Replaces rest →
        ∀ o ∈ rest, s.resolve path ≠ s.resolve o.path := by
      intro done rest split replaces
      induction replaces generalizing done with
      | nil => exact fun o member => nomatch member
      | delete p _ ih =>
        intro o member
        rcases List.mem_cons.mp member with rfl | member
        · exact deleted done p _ split
        · exact ih (done ++ [.delete p]) (by rw [split, List.append_assoc]; rfl) o member
      | replace p b _ ih =>
        have here := deleted done p _ split
        intro o member
        rcases List.mem_cons.mp member with rfl | member
        · exact here
        · rcases List.mem_cons.mp member with rfl | member
          · exact here
          · exact ih (done ++ [.delete p, .write p b]) (by rw [split, List.append_assoc]; rfl) o member
    exact all [] operations rfl replaces
  · intro others done rest split
    rw [FileStore.read_performAll_of_ne, read]
    intro o member
    exact others o (by rw [split]; exact List.mem_append_left _ member)

end OpenDelta
