/-!
# Values registered under document addresses

A registry holds at most one value per document address, in the order in which the addresses were
first registered.
-/

namespace UtsInsight

/-- Address of a document. -/
abbrev Uri := String

structure Registry (α : Type) where
  entries : List (Uri × α) := []

namespace Registry

variable {α : Type}

def empty : Registry α :=
  ⟨[]⟩

def get? (registry : Registry α) (uri : Uri) : Option α :=
  registry.entries.lookup uri

def size (registry : Registry α) : Nat :=
  registry.entries.length

/-- Replaces the value of an address in a list of entries, or adds it at the end. -/
def insertEntry (uri : Uri) (value : α) : List (Uri × α) → List (Uri × α)
  | [] => [(uri, value)]
  | (u, v) :: rest => if u = uri then (uri, value) :: rest else (u, v) :: insertEntry uri value rest

def insert (registry : Registry α) (uri : Uri) (value : α) : Registry α :=
  ⟨insertEntry uri value registry.entries⟩

def erase (registry : Registry α) (uri : Uri) : Registry α :=
  ⟨registry.entries.filter fun e => e.1 != uri⟩

end Registry

end UtsInsight
