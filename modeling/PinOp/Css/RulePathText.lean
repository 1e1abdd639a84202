import PinOp.Lib.Decimal
import PinOp.Css.StylesheetAst

/-!
# Rule paths as text

A path is written with dots between its numbers. It can be read back, so that two paths
with the same text are the same, and `parseBrowserRulePath` takes the first number off.
-/

namespace PinOp.Css

open PinOp.Lib PinOp.Protocol

theorem toList_joinPath (path : List ℕ) :
    (joinPath path).toList = ['.'].intercalate (path.map fun n => n.repr.toList) := by
  rw [joinPath, String.toList_intercalate, List.map_map]
  rfl

/-- The segments of the text of a path. -/
theorem jsSplit_joinPath {path : List ℕ} (hne : path ≠ []) :
    jsSplit (joinPath path) '.' = path.map Nat.repr := by
  have hsplit : (joinPath path).toList.splitOn '.' = path.map fun n => n.repr.toList := by
    rw [toList_joinPath]
    refine List.splitOn_intercalate '.' ?_ (by simpa using hne)
    intro l hl
    obtain ⟨n, -, rfl⟩ := List.mem_map.1 hl
    exact notMem_repr (by decide) n
  rw [jsSplit, hsplit, List.map_map]
  exact List.map_congr_left fun n _ => String.ofList_toList

theorem joinPath_inj {path path' : List ℕ} (hne : path ≠ []) (hne' : path' ≠ [])
    (h : joinPath path = joinPath path') : path = path' := by
  have hmap : path.map Nat.repr = path'.map Nat.repr := by
    rw [← jsSplit_joinPath hne, ← jsSplit_joinPath hne', h]
  exact List.map_injective_iff.2 repr_injective hmap

/-- One more number. -/
theorem joinPath_concat {path : List ℕ} (hne : path ≠ []) (i : ℕ) :
    joinPath (path ++ [i]) = joinPath path ++ "." ++ i.repr := by
  rw [joinPath, List.map_append, String.intercalate_append_of_ne_nil (by simpa using hne) (by simp),
    List.map_cons, List.map_nil, String.intercalate_singleton, joinPath]

/-- What is read of a path with its namespace in front is the path behind it. -/
theorem parse_joinPath {ns : ℕ} {path : List ℕ} {key : String}
    (h : parseBrowserRulePath (joinPath (ns :: path)) = some key) :
    path ≠ [] ∧ key = joinPath path := by
  unfold parseBrowserRulePath at h
  rw [jsSplit_joinPath (List.cons_ne_nil ns path), List.map_cons] at h
  split at h
  · cases h
  simp only at h
  split at h
  · cases h
  next hlength =>
  split at h
  · refine ⟨?_, (Option.some.inj h).symm⟩
    rintro rfl
    simp at hlength
  · cases h

end PinOp.Css
