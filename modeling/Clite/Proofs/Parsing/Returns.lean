import Clite.Proofs.Parsing.Expression

/-!
# Results of any run

Parsing goes on behind an error, so a run that is not clean may have a result as well.  `m.Returns before post` says
what is true of every result of `m`: if a run that begins before the terminals `before` has one, then this and the
terminals left satisfy `post`.  Whether there is a result or not, what is left is always the rest of what was before
(`returns_suffix`).
-/

namespace Clite

namespace Parser

/-- A parser never goes back. -/
theorem Regular.upcoming_advance_suffix {p : Parser} (h : p.Regular) : p.advance.upcoming <:+ p.upcoming := by
  cases hp : p.upcoming with
  | nil => exact List.suffix_nil.2 (h.upcoming_advance_of_nil hp)
  | cons t rest =>
    rw [upcoming_advance hp]
    exact List.suffix_cons t rest

theorem Reaches.upcoming_suffix {p q : Parser} (h : p.Reaches q) (hp : p.Regular) : q.upcoming <:+ p.upcoming := by
  induction h with
  | refl => exact List.suffix_refl _
  | advance hq ih => exact (hq.regular hp).upcoming_advance_suffix.trans ih
  | report _ _ ih =>
    rw [upcoming_report]
    exact ih
  | reject hq _ ih =>
    rw [upcoming_report]
    exact (hq.regular hp).upcoming_advance_suffix.trans ih
  | noteProgram _ _ _ ih =>
    rw [upcoming_noteProgram]
    exact ih

end Parser

namespace Parse

open Clite.Parser Clite.Grammar

variable {α β : Type}

/-- If a run of `m` on a text that begins before the terminals `before` has a result, then this and the terminals left
satisfy `post`. -/
def Returns (m : Parse α) (before : List Terminal) (post : α → List Terminal → Prop) : Prop :=
  ∀ p : Parser, p.Regular → p.upcoming = before → ∀ a, (m.run p).1 = some a → post a (m.run p).2.upcoming

variable {m : Parse α} {before : List Terminal} {post : α → List Terminal → Prop}

/-- A run with a result taken apart. -/
theorem Returns.of_run_eq (h : m.Returns before post) {p q : Parser} (hreg : p.Regular) (hp : p.upcoming = before)
    {a : α} (hrun : m.run p = (some a, q)) : q.Regular ∧ post a q.upcoming := by
  have hq := (m.reaches_run p).regular hreg
  have hpost := h p hreg hp a
  rw [hrun] at hq hpost
  exact ⟨hq, hpost rfl⟩

theorem Returns.imp {post' : α → List Terminal → Prop} (h : m.Returns before post)
    (himp : ∀ a after, post a after → post' a after) : m.Returns before post' :=
  fun p hreg hp a ha => himp _ _ (h p hreg hp a ha)

/-- A sequence has a result only if its first part has one. -/
theorem Returns.bind {f : α → Parse β} {post' : β → List Terminal → Prop} (h : m.Returns before post)
    (hf : ∀ a mid, post a mid → (f a).Returns mid post') : (m >>= f).Returns before post' := by
  intro p hreg hp b hb
  rw [run_bind] at hb ⊢
  split at hb
  · cases hb
  · next a q hrun =>
    obtain ⟨hq, hpost⟩ := h.of_run_eq hreg hp hrun
    exact hf a q.upcoming hpost q hq rfl b hb

theorem Succeeds.returns (h : m.Succeeds before post) : m.Returns before post := by
  intro p hreg hp a ha
  obtain ⟨-, b, hb, hpost⟩ := h p hreg hp
  rw [ha] at hb
  cases hb
  exact hpost

theorem returns_pure {a : α} (h : post a before) : (pure a : Parse α).Returns before post :=
  (succeeds_pure h).returns

/-- A procedure that always fails has no results. -/
theorem returns_of_none (h : ∀ p, (m.run p).1 = none) : m.Returns before post := by
  intro p _ _ a ha
  rw [h p] at ha
  cases ha

theorem returns_suffix (m : Parse α) (before : List Terminal) :
    m.Returns before fun _ after => after <:+ before := by
  rintro p hreg rfl - -
  exact (m.reaches_run p).upcoming_suffix hreg

theorem Returns.attempt (h : m.Returns before post) :
    m.attempt.Returns before fun a? after => after <:+ before ∧ ∀ a, a? = some a → post a after := by
  rintro p hreg hp a? ha
  have hresult : (m.run p).1 = a? := Option.some.inj ha
  refine ⟨hp ▸ (m.reaches_run p).upcoming_suffix hreg, fun a ha => ?_⟩
  exact h p hreg hp a (hresult.trans ha)

theorem returns_ofOption (a? : Option α) (before : List Terminal) :
    (ofOption a?).Returns before fun a after => a? = some a ∧ after = before := by
  rintro p - rfl a ha
  rw [run_ofOption] at ha ⊢
  exact ⟨ha, rfl⟩

theorem returns_expect {k : TokenKind} (hk : k ≠ .endOfFile) (context : String) (before : List Terminal) :
    (expect k context).Returns before fun t after => before = (k, t.lexeme) :: after := by
  rintro p - rfl t ht
  rw [run_expect] at ht ⊢
  split at ht
  · next h =>
    obtain rfl := Option.some.inj ht
    rw [if_pos h]
    exact upcoming_eq_cons hk h
  · cases ht

/-- A literal that denotes no value is consumed without a result. -/
theorem returns_literal (before : List Terminal) :
    literal.Returns before fun v after => ∃ t, before = t :: after ∧ Literal t v := by
  rintro p - rfl v hv
  unfold literal at hv ⊢
  dsimp only at hv ⊢
  split at hv
  · next v' hvalue =>
    obtain rfl := Option.some.inj hv
    exact exists_literal_of_ofToken? hvalue
  · cases hv

end Parse

end Clite
