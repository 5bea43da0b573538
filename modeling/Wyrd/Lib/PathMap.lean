import Mathlib

/-! # Maps from paths

A hierarchy seen from outside: what stands at each path. The updates say at once what
happens at, below and above the path they name, and that every other path keeps what it
has; `under` relates an update to the same one a component further down.
-/

namespace Wyrd

open List

abbrev PathMap (κ ν : Type) := List κ → Option ν

namespace PathMap

variable {κ ν : Type} [DecidableEq κ] {map sub : PathMap κ ν} {component other : κ} {node : ν}
  {path source target : List κ}

/-- What a map holds below one component. -/
def under (map : PathMap κ ν) (component : κ) : PathMap κ ν := fun rest => map (component :: rest)

/-- One node with nothing below it. -/
def leaf (node : ν) : PathMap κ ν := fun rest => if rest = [] then some node else none

/-- A hierarchy takes the place of what stood at a path. The way there leads through `node`. -/
def put (node : ν) (map : PathMap κ ν) (path : List κ) (sub : PathMap κ ν) : PathMap κ ν :=
  fun place =>
    if path <+: place then sub (place.drop path.length)
    else if place <+: path then some node
    else map place

/-- A path is gone, with all below it. -/
def remove (map : PathMap κ ν) (path : List κ) : PathMap κ ν :=
  fun place => if path <+: place then none else map place

/-- What stood at one path stands at another. -/
def move (map : PathMap κ ν) (source target : List κ) : PathMap κ ν :=
  fun place =>
    if target <+: place then map (source ++ place.drop target.length)
    else if source <+: place then none
    else map place

@[simp] lemma put_nil (node : ν) (map sub : PathMap κ ν) : map.put node [] sub = sub := by
  funext place
  simp [put]

lemma put_top : map.put node (component :: path) sub [] = some node := by
  simp [put]

lemma put_under : (map.put node (component :: path) sub).under component =
    (map.under component).put node path sub := by
  funext place
  simp [put, under, cons_prefix_cons]

lemma put_leaf : (leaf node).put node (component :: path) sub =
    PathMap.put node (fun _ => none) (component :: path) sub := by
  funext place
  unfold put leaf
  by_cases top : place = []
  · simp [top]
  · simp [top]

lemma put_under_other (hne : other ≠ component) :
    (map.put node (component :: path) sub).under other = map.under other := by
  funext place
  simp [put, under, cons_prefix_cons, hne, Ne.symm hne]

end PathMap

end Wyrd
