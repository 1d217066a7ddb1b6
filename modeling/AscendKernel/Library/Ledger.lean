import Mathlib.Data.Finset.Basic
import Mathlib.Data.Finset.Card

/-!
# Ledgers

Whether a program that makes objects, uses them and gives them up does so in
order.

What a program does is a list of entries, and `audit` goes through it with the
set of objects that exist. It stops where an object is made that is there
already, where one is used or destroyed that is not, and so a ledger that passes
the audit destroys nothing twice and uses nothing it has destroyed. What is left
at the end is what the program has leaked so far.

Programs make several objects, work with them, and destroy several, so the rules
are about lists of objects. Objects that exist besides are out of the way of all
of them.

## Main definitions

* `LedgerEntry`: Something done to objects.
* `audit`: The objects left by a ledger, if it is in order.

## Theorems

* `audit_append`: Ledgers one after the other.
* `audit_makes`, `audit_uses`, `audit_destroys`: Lists of objects.
* `audit_of_append`: A ledger in order has been in order all along.
-/

namespace AscendKernel

/-- Something done to objects. -/
inductive LedgerEntry (H : Type*) where
  | make (h : H)
  | use (hs : List H)
  | destroy (h : H)

variable {H : Type*} [DecidableEq H]

/-- One entry, with the objects that exist before and after. -/
def LedgerEntry.audit (live : Finset H) : LedgerEntry H → Option (Finset H)
  | make h => if h ∈ live then none else some (insert h live)
  | use hs => if hs.toFinset ⊆ live then some live else none
  | destroy h => if h ∈ live then some (live.erase h) else none

/-- The objects left by a ledger, if it is in order. -/
def audit (live : Finset H) (ledger : List (LedgerEntry H)) : Option (Finset H) :=
  ledger.foldlM LedgerEntry.audit live

theorem audit_cons (live : Finset H) (e : LedgerEntry H) (ledger : List (LedgerEntry H)) :
    audit live (e :: ledger) = (e.audit live).bind fun live' => audit live' ledger :=
  List.foldlM_cons

theorem audit_append (live : Finset H) (ledger ledger' : List (LedgerEntry H)) :
    audit live (ledger ++ ledger') = (audit live ledger).bind fun live' => audit live' ledger' :=
  List.foldlM_append

/-- New objects are there once they have been made. -/
theorem audit_makes (live : Finset H) (hs : List H) (hnodup : hs.Nodup)
    (hfresh : ∀ h ∈ hs, h ∉ live) :
    audit live (hs.map LedgerEntry.make) = some (live ∪ hs.toFinset) := by
  induction hs generalizing live with
  | nil =>
      rw [List.toFinset_nil, Finset.union_empty]
      rfl
  | cons h hs ih =>
      rcases List.nodup_cons.mp hnodup with ⟨hnot, hrest⟩
      have hstep : (LedgerEntry.make h).audit live = some (insert h live) :=
        if_neg (hfresh h List.mem_cons_self)
      have hfresh' : ∀ g ∈ hs, g ∉ insert h live := by
        intro g hg hmem
        rcases Finset.mem_insert.mp hmem with heq | hlive
        · rw [heq] at hg
          exact hnot hg
        · exact hfresh g (List.mem_cons_of_mem h hg) hlive
      rw [List.map_cons, audit_cons, hstep, Option.bind_some, ih _ hrest hfresh',
        List.toFinset_cons, Finset.insert_union, Finset.union_insert]

/-- Objects that are there can be used, any number of times. -/
theorem audit_uses (live : Finset H) (hs : List H) (n : ℕ) (h : ∀ g ∈ hs, g ∈ live) :
    audit live (List.replicate n (LedgerEntry.use hs)) = some live := by
  have hstep : (LedgerEntry.use hs).audit live = some live :=
    if_pos fun g hg => h g (List.mem_toFinset.mp hg)
  induction n with
  | zero => rfl
  | succ n ih => rw [List.replicate_succ, audit_cons, hstep, Option.bind_some, ih]

/-- Objects that are there are gone once they have been destroyed. -/
theorem audit_destroys (live : Finset H) (hs : List H) (hnodup : hs.Nodup)
    (hlive : ∀ h ∈ hs, h ∈ live) :
    audit live (hs.map LedgerEntry.destroy) = some (live \ hs.toFinset) := by
  induction hs generalizing live with
  | nil =>
      rw [List.toFinset_nil, Finset.sdiff_empty]
      rfl
  | cons h hs ih =>
      rcases List.nodup_cons.mp hnodup with ⟨hnot, hrest⟩
      have hstep : (LedgerEntry.destroy h).audit live = some (live.erase h) :=
        if_pos (hlive h List.mem_cons_self)
      have hlive' : ∀ g ∈ hs, g ∈ live.erase h := by
        intro g hg
        refine Finset.mem_erase.mpr ⟨fun heq => ?_, hlive g (List.mem_cons_of_mem h hg)⟩
        rw [heq] at hg
        exact hnot hg
      rw [List.map_cons, audit_cons, hstep, Option.bind_some, ih _ hrest hlive',
        List.toFinset_cons, Finset.sdiff_insert]
      exact congrArg some (Finset.erase_sdiff_comm _ _ _)

/-- A ledger in order has been in order all along. -/
theorem audit_of_append {live : Finset H} {es es' : List (LedgerEntry H)}
    (h : (audit live (es ++ es')).isSome = true) : (audit live es).isSome = true := by
  rw [audit_append] at h
  cases hes : audit live es with
  | none =>
      rw [hes] at h
      exact h
  | some live' => rfl

end AscendKernel
