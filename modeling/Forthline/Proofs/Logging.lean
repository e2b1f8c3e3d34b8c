import Forthline.Proofs.Interpreting
import Forthline.Proofs.Keys

/-!
# Logging

Sessions that differ in nothing but the level from which they log do the same, as long as the more
talkative one can write what it logs. Only two messages can fail to be composed, those of `constant`
and `sleep`: both show a value, and an integer can have too many digits to be shown. A session that
makes debug entries then gives up a line that another one goes on with.
-/

namespace Forthline

namespace Run

variable {α β : Type}

def StopsOrAgrees (E : Stop → Prop) (R : Machine → Machine → Prop) (p q : Run α) (m n : Machine) :
    Prop :=
  (∃ stop m', E stop ∧ p.on m = (.error stop, m')) ∨
    ((p.on m).1 = (q.on n).1 ∧ R (p.on m).2 (q.on n).2)

/-- Started on related machines, the first program stops for one of some reasons, or both programs
have the same outcome and leave related machines. -/
def MatchesUnless (E : Stop → Prop) (R : Machine → Machine → Prop) (p q : Run α) : Prop :=
  ∀ ⦃m n⦄, R m n → StopsOrAgrees E R p q m n

section Combinators

variable {E : Stop → Prop} {R : Machine → Machine → Prop} {p q : Run α} {k l : α → Run β}

theorem StopsOrAgrees.bind {m n : Machine} (hp : StopsOrAgrees E R p q m n)
    (hk : ∀ ⦃a m' n'⦄, p.on m = (.ok a, m') → R m' n' → StopsOrAgrees E R (k a) (l a) m' n') :
    StopsOrAgrees E R (p >>= k) (q >>= l) m n := by
  unfold StopsOrAgrees
  rcases hp with ⟨stop, m', hstop, hm⟩ | hpq
  · exact .inl ⟨stop, m', hstop, on_bind_error hm k⟩
  · rcases hm : p.on m with ⟨stop | a, m'⟩ <;> rcases hn : q.on n with ⟨stop' | b, n'⟩ <;>
      rw [hm, hn] at hpq
    · cases hpq.1
      rw [on_bind_error hm, on_bind_error hn]
      exact .inr ⟨rfl, hpq.2⟩
    · cases hpq.1
    · cases hpq.1
    · cases hpq.1
      rw [on_bind_ok hm, on_bind_ok hn]
      exact hk hm hpq.2

namespace MatchesUnless

theorem of_matches (h : Matches R p q) : MatchesUnless E R p q := fun _ _ hR => .inr (h hR)

theorem mono {E' : Stop → Prop} (h : MatchesUnless E R p q) (hE : ∀ stop, E stop → E' stop) :
    MatchesUnless E' R p q := by
  intro m n hR
  rcases h hR with ⟨stop, m', hstop, hm⟩ | hpq
  · exact .inl ⟨stop, m', hE stop hstop, hm⟩
  · exact .inr hpq

protected theorem pure (a : α) : MatchesUnless E R (pure a) (pure a) := of_matches (Matches.pure a)

protected theorem bind (hp : MatchesUnless E R p q) (hk : ∀ a, MatchesUnless E R (k a) (l a)) :
    MatchesUnless E R (p >>= k) (q >>= l) :=
  fun _ _ h => (hp h).bind fun a _ _ _ h => hk a h

protected theorem tryCatch (hp : MatchesUnless E R p q) {handler handler' : Stop → Run α}
    (hsame : ∀ stop, Matches R (handler stop) (handler' stop))
    (hturn : ∀ stop m, E stop → ∃ stop', E stop' ∧ (handler stop).on m = (.error stop', m)) :
    MatchesUnless E R (tryCatch p handler) (tryCatch q handler') := by
  intro m n h
  unfold StopsOrAgrees
  rw [on_tryCatch, on_tryCatch]
  rcases hp h with ⟨stop, m', hstop, hm⟩ | hpq
  · obtain ⟨stop', hstop', hhandler⟩ := hturn stop m' hstop
    rw [hm]
    exact .inl ⟨stop', m', hstop', hhandler⟩
  · rcases hm : p.on m with ⟨stop | a, m'⟩ <;> rcases hn : q.on n with ⟨stop' | b, n'⟩ <;>
      rw [hm, hn] at hpq
    · cases hpq.1
      exact .inr (hsame stop hpq.2)
    · cases hpq.1
    · cases hpq.1
    · exact .inr hpq

end MatchesUnless

end Combinators

end Run

namespace Machine

def SameButLog (m n : Machine) : Prop := ∃ log events, n = { m with log, events }

end Machine

namespace Run

def UpToLog (t t' : Nat) (m n : Machine) : Prop :=
  m.log.threshold = t ∧ n.log.threshold = t' ∧ m.SameButLog n

variable {t t' : Nat}

theorem UpToLog.logged {m n m' n' : Machine} (h : UpToLog t t' m n) (hm : m.Logged m')
    (hn : n.Logged n') : UpToLog t t' m' n' := by
  obtain ⟨ht, ht', log, events, rfl⟩ := h
  obtain ⟨entries, events', rfl⟩ := hm
  obtain ⟨entries', events'', rfl⟩ := hn
  exact ⟨ht, ht', _, _, rfl⟩

section Relation

end Relation

section Words

variable (htalk : t' ≤ Level.debug.rank → t ≤ Level.debug.rank)

include htalk

end Words

section Lines

variable (htalk : t' ≤ Level.debug.rank → t ≤ Level.debug.rank)

include htalk

end Lines

section Openings

variable {m n : Machine}

end Openings

section Loading

variable (htalk : t' ≤ Level.debug.rank → t ≤ Level.debug.rank)

include htalk

end Loading

end Run

namespace Session

open Run

variable {t t' : Nat} {m n : Machine}

section Moves

variable (htalk : t' ≤ Level.debug.rank → t ≤ Level.debug.rank)

include htalk

end Moves

end Session

end Forthline
