/-! Entries of a map as a list in increasing order of their keys. -/

namespace TensorGraph

namespace Entries

variable {κ ν : Type}

def insert (before : κ → κ → Bool) (key : κ) (value : ν) : List (κ × ν) → List (κ × ν)
  | [] => [(key, value)]
  | (firstKey, firstValue) :: rest =>
      if before key firstKey then (key, value) :: (firstKey, firstValue) :: rest
      else if before firstKey key then
        (firstKey, firstValue) :: insert before key value rest
      else (key, value) :: rest

/-- Adds the given entries in turn, so the last one with a key stays. -/
def ofList (before : κ → κ → Bool) (entries : List (κ × ν)) : List (κ × ν) :=
  entries.foldl (fun sorted entry => insert before entry.1 entry.2 sorted) []

end Entries

end TensorGraph
