import Mathlib.Logic.Relation
import KVRaft.Foundation.ReplicatedLog.Safety

/-!
# The initial state and sequences of steps

An implementation's handler may take several abstract steps at once, all of them
by the same server.
-/

namespace KVRaft
namespace Foundation

set_option linter.unusedSectionVars false

/-- Nobody has voted, stood or logged anything. -/
def LogState.initial {S E τ : Type} (t : τ) : LogState S E τ where
  term := fun _ => t
  log := fun _ => []
  vote := fun _ _ => none
  claim := fun _ _ => none
  leader := fun _ => none
  base := fun _ => []
  leaderLog := fun _ => []
  acked := fun _ _ _ => False

namespace LogSystem

variable {S E τ : Type} [DecidableEq S] [LinearOrder τ]

theorem Ballots.initial (M : LogSystem S E τ) (t : τ) :
    M.Ballots (LogState.initial t) where
  vote_term := nofun
  vote_claim := nofun
  claim_term := nofun
  claim_vote := nofun
  leader_quorum := nofun
  leaderLog_nil _ := rfl
  base_prefix := nofun
  base_term := nofun
  log_entry := nofun
  leaderLog_entry := nofun
  log_term := nofun
  leaderLog_term := nofun

theorem Safe.initial (M : LogSystem S E τ) (t : τ) : M.Safe (LogState.initial t) where
  log_coherent := nofun
  claim_coherent := nofun
  leaderLog_coherent := nofun
  acked_term := False.elim
  acked_length := False.elim
  acked_log _ ha := ha.elim
  acked_claim _ _ ha := ha.elim
  claim_log := nofun
  leader_complete := nofun

def Steps (M : LogSystem S E τ) (v : S) : LogState S E τ -> LogState S E τ -> Prop :=
  Relation.ReflTransGen (M.Step v)

def Moves (M : LogSystem S E τ) (v : S) : LogState S E τ -> LogState S E τ -> Prop :=
  Relation.ReflTransGen (M.Move v)

variable {M : LogSystem S E τ} {v : S} {α β γ : LogState S E τ}

namespace Moves

theorem refl (α : LogState S E τ) : M.Moves v α α :=
  Relation.ReflTransGen.refl

theorem snoc (h : M.Moves v α β) (k : M.Move v β γ) : M.Moves v α γ :=
  Relation.ReflTransGen.tail h k

theorem ballots (h : M.Moves v α β) (hb : M.Ballots α) : M.Ballots β := by
  induction h with
  | refl => exact hb
  | tail _ hmove ih => exact ih.move hmove

theorem grows (h : M.Moves v α β) (hb : M.Ballots α) : Grows α β := by
  induction h with
  | refl => exact Grows.refl α
  | tail hprev hmove ih => exact ih.trans (hmove.grows (Moves.ballots hprev hb))

theorem elsewhere (h : M.Moves v α β) (hb : M.Ballots α) : Elsewhere v α β := by
  induction h with
  | refl => exact Elsewhere.refl v α
  | tail hprev hmove ih =>
      exact Elsewhere.trans (Moves.grows hprev hb) ih hmove.elsewhere

end Moves

namespace Steps

theorem refl (α : LogState S E τ) : M.Steps v α α :=
  Relation.ReflTransGen.refl

theorem snoc (h : M.Steps v α β) (k : M.Step v β γ) : M.Steps v α γ :=
  Relation.ReflTransGen.tail h k

theorem moves (h : M.Steps v α β) : M.Moves v α β :=
  Relation.ReflTransGen.mono (fun _ _ hstep => Or.inl hstep) _ _ h

theorem safe (h : M.Steps v α β) (hb : M.Ballots α) (hs : M.Safe α) : M.Safe β := by
  induction h with
  | refl => exact hs
  | tail hprev hstep ih =>
      exact ih.step ((Steps.moves hprev).ballots hb) hstep

end Steps
end LogSystem
end Foundation
end KVRaft
