/-
Where spans lie. `In` places one span between two positions; `InOrder` a list of spans one after
another; `Scattered` a list of spans that do not overlap, in whatever order. Readers give spans in
order, while code is written in an order of its own, so what is read is in order and what is written
is scattered.
-/
import TypedTemplate.Span
import Mathlib.Tactic

namespace TypedTemplate.Span

variable {s t : Span} {lo hi mid : Nat} {ss as bs : List Span}

/-- A span that starts at `lo` or after it and stops at `hi` or before it. -/
structure In (s : Span) (lo hi : Nat) : Prop where
  lower : lo ≤ s.start
  ordered : s.start ≤ s.stop
  upper : s.stop ≤ hi

theorem In.mono {lo' hi' : Nat} (h : s.In lo hi) (hlo : lo' ≤ lo) (hhi : hi ≤ hi') : s.In lo' hi' :=
  ⟨hlo.trans h.lower, h.ordered, h.upper.trans hhi⟩

theorem includes_iff : s.includes t = true ↔ s.start ≤ t.start ∧ t.stop ≤ s.stop := by
  simp [includes]

theorem touches_iff {offset : Nat} : s.touches offset = true ↔ s.start ≤ offset ∧ offset ≤ s.stop := by
  simp [touches]

theorem In.includes (h : s.In t.start t.stop) : t.includes s = true :=
  includes_iff.2 ⟨h.lower, h.upper⟩

/-- Up to the last position, spans are kept as they are. -/
theorem In.kept (h : s.In lo hi) (hhi : hi ≤ maxPosition) : s.kept = s := by
  have hstop := h.upper.trans hhi
  rw [Span.kept, position_of_le hstop, position_of_le (h.ordered.trans hstop)]

theorem In.shift (h : s.In lo hi) (delta : Nat) : (s.shift delta).In (lo + delta) (hi + delta) :=
  ⟨Nat.add_le_add_right h.lower _, Nat.add_le_add_right h.ordered _, Nat.add_le_add_right h.upper _⟩

/-- Two spans that share no byte and do not lie in each other. -/
def Apart (s t : Span) : Prop := s.stop ≤ t.start ∨ t.stop ≤ s.start

theorem Apart.symm (h : Apart s t) : Apart t s := Or.symm h

theorem In.apart (hs : s.In lo mid) (ht : t.In mid hi) : Apart s t :=
  .inl (hs.upper.trans ht.lower)

/-! ## One after another -/

/-- Spans one after another between `lo` and `hi`. -/
def InOrder (lo : Nat) : List Span → Nat → Prop
  | [], hi => lo ≤ hi
  | s :: ss, hi => lo ≤ s.start ∧ s.start ≤ s.stop ∧ InOrder s.stop ss hi

theorem InOrder.le {lo hi : Nat} : ∀ {ss : List Span}, InOrder lo ss hi → lo ≤ hi
  | [], h => h
  | _ :: _, ⟨h₁, h₂, h₃⟩ => h₁.trans (h₂.trans h₃.le)

theorem InOrder.mono {lo lo' hi hi' : Nat} (hlo : lo' ≤ lo) (hhi : hi ≤ hi') :
    ∀ {ss : List Span}, InOrder lo ss hi → InOrder lo' ss hi'
  | [], h => hlo.trans (Nat.le_trans h hhi)
  | _ :: _, ⟨h₁, h₂, h₃⟩ => ⟨hlo.trans h₁, h₂, h₃.mono le_rfl hhi⟩

theorem In.inOrder (h : s.In lo hi) : InOrder lo [s] hi :=
  ⟨h.lower, h.ordered, h.upper⟩

theorem InOrder.append {mid hi : Nat} {bs : List Span} (hb : InOrder mid bs hi) :
    ∀ {as : List Span} {lo : Nat}, InOrder lo as mid → InOrder lo (as ++ bs) hi
  | [], _, ha => hb.mono ha le_rfl
  | _ :: _, _, ⟨h₁, h₂, h₃⟩ => ⟨h₁, h₂, hb.append h₃⟩

/-- Spans in order can be cut anywhere. -/
theorem InOrder.split {hi : Nat} {bs : List Span} :
    ∀ {as : List Span} {lo : Nat}, InOrder lo (as ++ bs) hi →
      ∃ mid, InOrder lo as mid ∧ InOrder mid bs hi
  | [], lo, h => ⟨lo, Nat.le_refl lo, h⟩
  | _ :: _, _, ⟨h₁, h₂, h₃⟩ =>
    let ⟨mid, ha, hb⟩ := h₃.split
    ⟨mid, ⟨h₁, h₂, ha⟩, hb⟩

theorem InOrder.inside {hi : Nat} :
    ∀ {ss : List Span} {lo : Nat}, InOrder lo ss hi → ∀ s ∈ ss, s.In lo hi
  | s :: ss, lo, ⟨h₁, h₂, h₃⟩, t, ht => by
    rcases List.mem_cons.1 ht with rfl | ht
    · exact ⟨h₁, h₂, h₃.le⟩
    · exact (h₃.inside t ht).mono (h₁.trans h₂) le_rfl

theorem InOrder.pairwise {hi : Nat} :
    ∀ {ss : List Span} {lo : Nat}, InOrder lo ss hi → ss.Pairwise fun s t => s.stop ≤ t.start
  | [], _, _ => .nil
  | _ :: _, _, ⟨_, _, h₃⟩ => .cons (fun t ht => (h₃.inside t ht).lower) h₃.pairwise

theorem inOrder_of_pairwise {hi : Nat} :
    ∀ {ss : List Span} {lo : Nat}, lo ≤ hi → (∀ s ∈ ss, s.In lo hi) →
      (ss.Pairwise fun s t => s.stop ≤ t.start) → InOrder lo ss hi
  | [], _, hle, _, _ => hle
  | s :: ss, lo, _, hin, hp => by
    obtain ⟨hs, hp⟩ := List.pairwise_cons.1 hp
    have h := hin s List.mem_cons_self
    refine ⟨h.lower, h.ordered, inOrder_of_pairwise h.upper (fun t ht => ?_) hp⟩
    have h' := hin t (List.mem_cons_of_mem s ht)
    exact ⟨hs t ht, h'.ordered, h'.upper⟩

theorem InOrder.apart (h : InOrder lo ss hi) : ss.Pairwise Apart :=
  h.pairwise.imp .inl

/-- Where the last of some spans stops, or `lo` without any. -/
def lastStop (lo : Nat) (ss : List Span) : Nat := (ss.getLast?.map (·.stop)).getD lo

@[simp] theorem lastStop_cons (lo : Nat) (s : Span) (ss : List Span) :
    lastStop lo (s :: ss) = lastStop s.stop ss := by
  cases ss with
  | nil => rfl
  | cons t ts => simp [lastStop, List.getLast?_cons]

/-- Spans in order already lie before the end of the last one. -/
theorem InOrder.tight {hi : Nat} :
    ∀ {ss : List Span} {lo : Nat}, InOrder lo ss hi →
      InOrder lo ss (lastStop lo ss) ∧ lastStop lo ss ≤ hi
  | [], lo, h => ⟨Nat.le_refl lo, h⟩
  | s :: ss, lo, ⟨h₁, h₂, h₃⟩ => by
    obtain ⟨ht, hle⟩ := h₃.tight
    rw [lastStop_cons]
    exact ⟨⟨h₁, h₂, ht⟩, hle⟩

/-- The least span over spans in order takes their place. -/
theorem InOrder.cover {first last : Span} (h : InOrder lo ss hi) (hfirst : ss.head? = some first)
    (hlast : ss.getLast? = some last) :
    (first.cover last).In lo hi ∧
      InOrder (first.cover last).start ss (first.cover last).stop := by
  obtain ⟨s, ss, rfl⟩ : ∃ s rest, ss = s :: rest := by
    cases ss with
    | nil => simp at hfirst
    | cons s rest => exact ⟨s, rest, rfl⟩
  obtain rfl : s = first := by simpa using hfirst
  have hstop : lastStop lo (s :: ss) = last.stop := by simp [lastStop, hlast]
  obtain ⟨⟨h₁, h₂, h₃⟩, hle⟩ := h.tight
  rw [hstop] at h₃ hle
  have hin := h.inside last (List.mem_of_getLast? hlast)
  have hstart : s.start ≤ last.start := by
    rcases List.mem_cons.1 (List.mem_of_getLast? hlast) with rfl | hm
    · exact le_rfl
    · exact h₂.trans (h₃.inside last hm).lower
  have hcover : s.cover last = ⟨s.start, last.stop⟩ := by
    have := h₃.le
    simp [Span.cover, hstart, this]
  rw [hcover]
  exact ⟨⟨h₁, hstart.trans hin.ordered, hle⟩, Nat.le_refl _, h₂, h₃⟩

theorem In.cover (hs : s.In lo mid) (ht : t.In mid hi) :
    (s.cover t).In lo hi ∧ InOrder (s.cover t).start [s, t] (s.cover t).stop :=
  InOrder.cover (ht.inOrder.append hs.inOrder) rfl rfl

/-! ## In any order -/

/-- Spans between `lo` and `hi` that do not overlap. -/
structure Scattered (lo hi : Nat) (ss : List Span) : Prop where
  inside : ∀ s ∈ ss, s.In lo hi
  apart : ss.Pairwise Apart

theorem InOrder.scattered (h : InOrder lo ss hi) : Scattered lo hi ss :=
  ⟨h.inside, h.apart⟩

theorem Scattered.nil : Scattered lo hi [] := ⟨by simp, .nil⟩

theorem Scattered.mono {lo' hi' : Nat} (h : Scattered lo hi ss) (hlo : lo' ≤ lo) (hhi : hi ≤ hi') :
    Scattered lo' hi' ss :=
  ⟨fun s hs => (h.inside s hs).mono hlo hhi, h.apart⟩

theorem Scattered.sublist {ts : List Span} (h : Scattered lo hi ts) (hs : ss.Sublist ts) : Scattered lo hi ss :=
  ⟨fun s hm => h.inside s (hs.subset hm), h.apart.sublist hs⟩

theorem Scattered.left (h : Scattered lo hi (as ++ bs)) : Scattered lo hi as :=
  h.sublist (List.sublist_append_left as bs)

theorem Scattered.right (h : Scattered lo hi (as ++ bs)) : Scattered lo hi bs :=
  h.sublist (List.sublist_append_right as bs)

theorem Scattered.head (h : Scattered lo hi (s :: ss)) : s.In lo hi :=
  h.inside s List.mem_cons_self

theorem Scattered.tail (h : Scattered lo hi (s :: ss)) : Scattered lo hi ss :=
  h.sublist (List.sublist_cons_self s ss)

theorem Scattered.perm {ts : List Span} (h : Scattered lo hi ts) (hp : ss.Perm ts) : Scattered lo hi ss :=
  ⟨fun s hm => h.inside s (hp.subset hm), h.apart.perm hp.symm fun h => h.symm⟩

theorem Scattered.append (ha : Scattered lo mid as) (hb : Scattered mid hi bs) (hlo : lo ≤ mid) (hhi : mid ≤ hi) :
    Scattered lo hi (as ++ bs) := by
  refine ⟨fun s hs => ?_, List.pairwise_append.2 ⟨ha.apart, hb.apart, fun s hs t ht => ?_⟩⟩
  · rcases List.mem_append.1 hs with hs | hs
    · exact (ha.inside s hs).mono le_rfl hhi
    · exact (hb.inside s hs).mono hlo le_rfl
  · exact (ha.inside s hs).apart (hb.inside t ht)

/-- One more span, before the others. -/
theorem Scattered.cons (h : Scattered mid hi ss) (hs : s.In lo mid) (hmid : mid ≤ hi) : Scattered lo hi (s :: ss) :=
  Scattered.append hs.inOrder.scattered h (hs.lower.trans (hs.ordered.trans hs.upper)) hmid

end TypedTemplate.Span
