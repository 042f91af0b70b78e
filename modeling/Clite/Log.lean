/-!
# Append-only logs

A log is filled by `push` alone and read through `toList`, oldest entry first.  Every statement about a log is
made on that view.
-/

namespace Clite

/-- A sequence that grows at its end; `recent` holds the entries newest first. -/
structure Log (α : Type) where
  recent : List α
  deriving DecidableEq, Repr

namespace Log

variable {α : Type}

def empty : Log α := ⟨[]⟩

def push (log : Log α) (entry : α) : Log α := ⟨entry :: log.recent⟩

/-- The entries in the order in which they were recorded. -/
def toList (log : Log α) : List α := log.recent.reverse

def size (log : Log α) : Nat := log.recent.length

@[simp] theorem toList_empty : (empty : Log α).toList = [] := rfl

@[simp] theorem toList_push (log : Log α) (entry : α) :
    (log.push entry).toList = log.toList ++ [entry] := by
  simp [toList, push]

@[simp] theorem size_empty : (empty : Log α).size = 0 := rfl

@[simp] theorem size_push (log : Log α) (entry : α) : (log.push entry).size = log.size + 1 := rfl

theorem length_toList (log : Log α) : log.toList.length = log.size := by
  simp [toList, size]

end Log

end Clite
