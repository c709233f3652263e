import Mathlib.Data.List.Induction

/-! Key-alternating ciphers: a key is added, then every round confuses the block, diffuses it and adds a
key, and the last round does not diffuse. Where diffusion is linear, the inverse cipher has the same shape:
it takes the keys in the opposite order, the inner ones diffused backward. -/

namespace CSem

/-- The maps that the rounds of a cipher are made of. -/
structure KeyAlternating (α : Type) where
  addKey : α → α → α
  confuse : α → α
  diffuse : α → α

namespace KeyAlternating

variable {α : Type}

/-- The rounds that diffuse. -/
def fullRounds (C : KeyAlternating α) (keys : List α) (block : α) : α :=
  keys.foldl (fun block key => C.addKey (C.diffuse (C.confuse block)) key) block

/-- The cipher with a first key, the keys of the full rounds and a last key. -/
def run (C : KeyAlternating α) (first : α) (keys : List α) (last block : α) : α :=
  C.addKey (C.confuse (C.fullRounds keys (C.addKey block first))) last

@[simp] theorem fullRounds_nil (C : KeyAlternating α) (block : α) : C.fullRounds [] block = block := rfl

theorem fullRounds_cons (C : KeyAlternating α) (key : α) (keys : List α) (block : α) :
    C.fullRounds (key :: keys) block = C.fullRounds keys (C.addKey (C.diffuse (C.confuse block)) key) := rfl

theorem fullRounds_concat (C : KeyAlternating α) (keys : List α) (key block : α) :
    C.fullRounds (keys ++ [key]) block = C.addKey (C.diffuse (C.confuse (C.fullRounds keys block))) key := by
  rw [fullRounds, List.foldl_append]
  rfl

/-- The maps of a cipher undo those of another one, and its diffusion is linear. -/
structure Inverts (D C : KeyAlternating α) : Prop where
  addKey : ∀ block key, D.addKey (C.addKey block key) key = block
  confuse : ∀ block, D.confuse (C.confuse block) = block
  diffuse : ∀ block, D.diffuse (C.diffuse block) = block
  diffuse_addKey : ∀ block key, D.diffuse (C.addKey block key) = C.addKey (D.diffuse block) (D.diffuse key)

variable {C D : KeyAlternating α}

/-- The full rounds of the inverse cipher start behind the confusion of a round and end there. -/
theorem Inverts.fullRounds (h : D.Inverts C) (keys : List α) (block : α) :
    D.fullRounds (keys.reverse.map D.diffuse) (C.confuse (C.fullRounds keys block)) = C.confuse block := by
  induction keys using List.reverseRecOn with
  | nil => rfl
  | append_singleton keys key ih =>
      rw [List.reverse_concat, List.map_cons, fullRounds_cons, fullRounds_concat, h.confuse, h.diffuse_addKey,
        h.addKey, h.diffuse]
      exact ih

/-- The cipher with the keys in the opposite order undoes the other one. -/
theorem Inverts.run (h : D.Inverts C) (first : α) (keys : List α) (last block : α) :
    D.run last (keys.reverse.map D.diffuse) first (C.run first keys last block) = block := by
  rw [KeyAlternating.run, KeyAlternating.run, h.addKey, h.fullRounds, h.confuse, h.addKey]

end KeyAlternating

end CSem
