import Wyrd.Author.Hierarchy

/-! # The gate in front of a merge

A merge adopts entries of other heads only if all that they name can be served without
fetching: a chunk is stored, or has a recorded mapping which can be served. The tree it
builds is stored before the walk looks at it.
-/

namespace Wyrd.Author

open Closure Function Machine

variable {ε : Type}

structure Gating where
  stack : List ContentId
  seen : Finset ContentId

namespace Env

variable (env : Env ε) (session : Session)

def checkChunk (chunk : ContentId) : Except (AuthorError ε) Unit := do
  if ← (env.has chunk).mapError .objectStore then return ()
  demand (.chunkUnavailable chunk) ((env.recordedEntry session chunk).isSome = true)

/-- Gate one adopted entry: files now, directories later. -/
def checkEntry (stack : List ContentId) (entry : Entry) : Except (AuthorError ε) (List ContentId) :=
  match entry.content with
  | .file _ _ chunks => do
      chunks.forM (env.checkChunk session)
      return stack
  | .dir subtree => .ok (subtree :: stack)
  | .symlink _ => .ok stack

def checkPass (state : Gating) : Pass Gating (Except (AuthorError ε) Unit) :=
  match state.stack with
  | [] => .done (.ok ())
  | id :: rest =>
    if id ∈ state.seen then .more { state with stack := rest }
    else
      match env.loadTree id with
      | .error error => .done (.error error)
      | .ok (_, tree) =>
        match tree.entries.foldlM (env.checkEntry session) rest with
        | .error error => .done (.error error)
        | .ok stack => .more ⟨stack, insert id state.seen⟩

/-- The locality gate: all that an entry adopts can be served without fetching. -/
def checkLocal (fuel : Nat) (entry : Entry) : Option (Except (AuthorError ε) Unit) :=
  match env.checkEntry session [] entry with
  | .error error => some (.error error)
  | .ok stack => run (env.checkPass session) fuel ⟨stack, ∅⟩

def treeIdOf (tree : Tree) : ContentId := env.K.contentId .tree tree.encode

def withTree (merged : Tree) : Env ε :=
  { env with
    get := update env.get (env.treeIdOf merged) (.ok (some merged.encode))
    has := update env.has (env.treeIdOf merged) (.ok true) }

variable {env} {merged : Tree}

lemma get_merged : (env.withTree merged).get (env.treeIdOf merged) = .ok (some merged.encode) :=
  update_self ..

end Env

end Wyrd.Author
