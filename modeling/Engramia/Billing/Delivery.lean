import Engramia.Billing.Effects

/-!
What the dedup table promises. Stripe redelivers an event until it is
answered with success, and a recorded event is never handled again, so
recording one whose effect is missing loses it for good. The history keeps
the ids of the events whose effect some delivery really applied.
-/
namespace Engramia.Billing

open Engramia.Library

structure DeliveryState where
  world : World
  /-- Event ids whose effect was applied by some delivery. -/
  applied : List String

def deliveryStep (environ : Environ) (s : DeliveryState) (d : Delivery) :
    DeliveryState :=
  let w' := (handleWebhookEvent environ d s.world).world
  { world := w'
    applied :=
      if isEventProcessed d.faults.isEventProcessed s.world d.event.id then s.applied
      else if EffectApplied environ d s.world w' then d.event.id :: s.applied
      else s.applied }

/-- A recorded event was applied, and an event that was not is handled when it
is delivered again. -/
structure NothingLost (s : DeliveryState) : Prop where
  recorded_applied : ∀ e ∈ s.world.processedEvents, e.1 ∈ s.applied
  redelivery_handled : ∀ id, id ∉ s.applied → ∀ fails, isEventProcessed fails s.world id = false

/-- The delivery records nothing new, or its effect lands. -/
def Lossless (environ : Environ) (s : DeliveryState) (d : Delivery) : Prop :=
  s.world.hasProcessed d.event.id = true ∨ d.faults.markProcessed = true ∨
    d.event.id ∈ s.applied ∨ d.event.body.Lands environ d s.world

theorem hasProcessed_iff {w : World} {id : String} :
    w.hasProcessed id = true ↔ ∃ e ∈ w.processedEvents, e.1 = id := by
  simp [World.hasProcessed]

theorem nothingLost_iff {s : DeliveryState} :
    NothingLost s ↔ ∀ e ∈ s.world.processedEvents, e.1 ∈ s.applied := by
  refine ⟨fun h => h.recorded_applied, fun h => ⟨h, ?_⟩⟩
  intro id hid fails
  by_contra hskip
  simp only [isEventProcessed, Bool.not_eq_false, Bool.and_eq_true] at hskip
  obtain ⟨e, he, rfl⟩ := hasProcessed_iff.mp hskip.2
  exact hid (h e he)

section Step
variable {environ : Environ} {s : DeliveryState} {d : Delivery}

theorem deliveryStep_skipped
    (hskip : isEventProcessed d.faults.isEventProcessed s.world d.event.id = true) :
    deliveryStep environ s d = s := by
  simp [deliveryStep, handleWebhookEvent, hskip]

theorem deliveryStep_handled
    (hskip : isEventProcessed d.faults.isEventProcessed s.world d.event.id = false) :
    (deliveryStep environ s d).applied =
      if EffectApplied environ d s.world (dispatchEvent environ d s.world).world then
        d.event.id :: s.applied
      else s.applied := by
  have hworld : EffectApplied environ d s.world (handleWebhookEvent environ d s.world).world ↔
      EffectApplied environ d s.world (dispatchEvent environ d s.world).world := by
    simp only [handleWebhookEvent, hskip, Bool.false_eq_true, if_false]
    cases hr : (dispatchEvent environ d s.world).raised with
    | some e => exact Iff.rfl
    | none =>
        have hm := markEventProcessed_frame d.faults.markProcessed
          (dispatchEvent environ d s.world).world d.event
        exact effectApplied_congr hm.1 hm.2.2
  simp only [deliveryStep, hskip, Bool.false_eq_true, if_false, hworld]

theorem deliveryStep_recorded
    (hskip : isEventProcessed d.faults.isEventProcessed s.world d.event.id = false) :
    (deliveryStep environ s d).world.processedEvents =
      if (dispatchEvent environ d s.world).raised ≠ none ∨ d.faults.markProcessed = true ∨
          s.world.hasProcessed d.event.id = true then s.world.processedEvents
      else s.world.processedEvents ++ [(d.event.id, d.event.body.type)] := by
  have hprocessed := (wrote_dispatchEvent environ d s.world).processedEvents
  simp only [deliveryStep, handleWebhookEvent, hskip, Bool.false_eq_true, if_false]
  cases hr : (dispatchEvent environ d s.world).raised with
  | some e => simp [hprocessed]
  | none =>
      have hhas : (dispatchEvent environ d s.world).world.hasProcessed d.event.id =
          s.world.hasProcessed d.event.id := by
        simp only [World.hasProcessed, hprocessed]
      simp only [markEventProcessed, hhas, Bool.or_eq_true, ne_eq, not_true_eq_false, false_or]
      split <;> simp [hprocessed]

theorem applied_mono {id : String} (h : id ∈ s.applied) :
    id ∈ (deliveryStep environ s d).applied := by
  cases hskip : isEventProcessed d.faults.isEventProcessed s.world d.event.id with
  | true => rwa [deliveryStep_skipped hskip]
  | false =>
      rw [deliveryStep_handled hskip]
      split
      · exact List.mem_cons_of_mem _ h
      · exact h

theorem nothingLost_step_iff (h : NothingLost s) :
    NothingLost (deliveryStep environ s d) ↔ Lossless environ s d := by
  rw [nothingLost_iff] at h ⊢
  cases hskip : isEventProcessed d.faults.isEventProcessed s.world d.event.id with
  | true =>
      rw [deliveryStep_skipped hskip]
      simp only [isEventProcessed, Bool.and_eq_true] at hskip
      exact ⟨fun _ => .inl hskip.2, fun _ => h⟩
  | false =>
      have hold : ∀ e ∈ s.world.processedEvents, e.1 ∈ (deliveryStep environ s d).applied :=
        fun e he => applied_mono (h e he)
      rw [deliveryStep_recorded hskip]
      by_cases hkeep : (dispatchEvent environ d s.world).raised ≠ none ∨
          d.faults.markProcessed = true ∨ s.world.hasProcessed d.event.id = true
      · -- nothing is recorded by this delivery
        rw [if_pos hkeep]
        refine ⟨fun _ => ?_, fun _ => hold⟩
        rcases hkeep with hraised | hmark | hhas
        · exact .inr (.inr (.inr (dispatch_raised_lands hraised)))
        · exact .inr (.inl hmark)
        · exact .inl hhas
      · rw [if_neg hkeep]
        simp only [not_or, ne_eq, not_not] at hkeep
        obtain ⟨hraised, hmark, hhas⟩ := hkeep
        have heffect := dispatch_effect_iff d hraised
        have hlossless : Lossless environ s d ↔
            d.event.id ∈ s.applied ∨ d.event.body.Lands environ d s.world := by
          simp [Lossless, hmark, hhas]
        have happlied : d.event.id ∈ (deliveryStep environ s d).applied ↔
            d.event.id ∈ s.applied ∨ d.event.body.Lands environ d s.world := by
          rw [deliveryStep_handled hskip, ← heffect]
          split
          · rename_i heff
            exact ⟨fun _ => .inr heff, fun _ => List.mem_cons_self⟩
          · rename_i heff
            exact ⟨.inl, fun hor => hor.resolve_right heff⟩
        rw [hlossless, ← happlied]
        constructor
        · intro hall
          exact hall (d.event.id, d.event.body.type)
            (List.mem_append_right _ (List.mem_singleton.mpr rfl))
        · intro hid e he
          rcases List.mem_append.mp he with he | he
          · exact hold e he
          · rw [List.mem_singleton.mp he]
            exact hid

end Step

/-- `acmeRow` before any delivery. -/
def acmeDeliveries : DeliveryState := ⟨acmePaidWorld, []⟩

theorem nothingLost_acmeDeliveries : NothingLost acmeDeliveries :=
  nothingLost_iff.mpr (by decide)

end Engramia.Billing
