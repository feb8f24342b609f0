import Mathlib

/-!
# Incremental decoding of a stream

A decoder looks at the front of the unread input and either waits for more, takes an item, or
fails. Verdicts other than waiting are final: more input does not change them. Then the way
the input is cut into chunks is invisible in what is decoded.
-/
namespace RpcMuduo.StreamDecoder

inductive Verdict (β ε : Type*)
  | more
  | item (consumed : ℕ) (value : β)
  | fail (error : ε)

structure Decoder (α β ε : Type*) where
  next : List α → Verdict β ε
  next_nil : next [] = .more
  item_bounds : ∀ {xs n b}, next xs = .item n b → 0 < n ∧ n ≤ xs.length
  item_append : ∀ {xs n b} (ys : List α), next xs = .item n b → next (xs ++ ys) = .item n b
  fail_append : ∀ {xs e} (ys : List α), next xs = .fail e → next (xs ++ ys) = .fail e

/-- What one pass over the unread input yields. -/
structure Drained (α β ε : Type*) where
  items : List β
  error : Option ε
  rest : List α

variable {α β ε : Type*} (d : Decoder α β ε)

@[grind =] def drainAux : ℕ → List α → Drained α β ε
  | 0, xs => ⟨[], none, xs⟩
  | fuel + 1, xs =>
    match d.next xs with
    | .more => ⟨[], none, xs⟩
    | .fail e => ⟨[], some e, xs⟩
    | .item n b =>
      let r := drainAux fuel (xs.drop n)
      ⟨b :: r.items, r.error, r.rest⟩

/-- Take items until the decoder waits or fails. Every item takes at least one cell. -/
def drain (xs : List α) : Drained α β ε := drainAux d (xs.length + 1) xs

theorem drainAux_eq_drain {fuel : ℕ} {xs : List α} (h : xs.length < fuel) :
    drainAux d fuel xs = drain d xs := by
  induction fuel using Nat.strong_induction_on generalizing xs with
  | _ fuel ih =>
    obtain ⟨k, rfl⟩ : ∃ k, fuel = k + 1 := ⟨fuel - 1, by omega⟩
    rw [drain]
    cases hn : d.next xs with
    | more => simp [drainAux, hn]
    | fail e => simp [drainAux, hn]
    | item n b =>
      obtain ⟨hpos, hle⟩ := d.item_bounds hn
      have hlen : (xs.drop n).length < xs.length := by rw [List.length_drop]; omega
      have hk : drainAux d k (xs.drop n) = drain d (xs.drop n) := ih k (by omega) (by omega)
      have hx : drainAux d xs.length (xs.drop n) = drain d (xs.drop n) := by
        rcases Nat.lt_or_ge xs.length (k + 1) with hlt | hge
        · exact ih xs.length hlt hlen
        · omega
      simp only [drainAux, hn, hk, hx]

theorem drain_more {xs : List α} (h : d.next xs = .more) : drain d xs = ⟨[], none, xs⟩ := by
  simp [drain, drainAux, h]

theorem drain_fail {xs : List α} {e : ε} (h : d.next xs = .fail e) :
    drain d xs = ⟨[], some e, xs⟩ := by
  simp [drain, drainAux, h]

theorem drain_item {xs : List α} {n : ℕ} {b : β} (h : d.next xs = .item n b) :
    drain d xs = ⟨b :: (drain d (xs.drop n)).items, (drain d (xs.drop n)).error,
      (drain d (xs.drop n)).rest⟩ := by
  obtain ⟨hpos, hle⟩ := d.item_bounds h
  have hlen : (xs.drop n).length < xs.length := by rw [List.length_drop]; omega
  rw [drain, drainAux]
  simp only [h, drainAux_eq_drain d hlen]

/-- Draining in two passes: what the first pass decoded stays decoded, and the second starts
from its rest. After a failure the rest only grows. -/
theorem drain_append (xs ys : List α) :
    (drain d (xs ++ ys)).items =
        (drain d xs).items ++ (drain d ((drain d xs).rest ++ ys)).items ∧
      (drain d (xs ++ ys)).error = (drain d ((drain d xs).rest ++ ys)).error ∧
      (drain d (xs ++ ys)).rest = (drain d ((drain d xs).rest ++ ys)).rest := by
  induction h : xs.length using Nat.strong_induction_on generalizing xs with
  | _ len ih =>
    subst h
    cases hn : d.next xs with
    | more => simp [drain_more d hn]
    | fail e => simp [drain_fail d hn]
    | item n b =>
      obtain ⟨hpos, hle⟩ := d.item_bounds hn
      have hlen : (xs.drop n).length < xs.length := by rw [List.length_drop]; omega
      obtain ⟨h1, h2, h3⟩ := ih _ hlen (xs.drop n) rfl
      rw [drain_item d (d.item_append ys hn), drain_item d hn,
        List.drop_append_of_le_length hle]
      simp [h1, h2, h3]

/-- A pass leaves a rest on which the decoder takes nothing more. -/
theorem drain_rest (xs : List α) :
    drain d (drain d xs).rest = ⟨[], (drain d xs).error, (drain d xs).rest⟩ := by
  induction h : xs.length using Nat.strong_induction_on generalizing xs with
  | _ len ih =>
    subst h
    cases hn : d.next xs with
    | more => simp [drain_more d hn]
    | fail e => simp [drain_fail d hn]
    | item n b =>
      obtain ⟨hpos, hle⟩ := d.item_bounds hn
      have hlen : (xs.drop n).length < xs.length := by rw [List.length_drop]; omega
      rw [drain_item d hn]
      exact ih _ hlen (xs.drop n) rfl

/-- An error does not go away: input that decodes without one has no error in its prefixes. -/
theorem drain_error_prefix {xs ys : List α} (h : (drain d (xs ++ ys)).error = none) :
    (drain d xs).error = none := by
  rw [(drain_append d xs ys).2.1] at h
  have hrest := drain_rest d xs
  cases hn : d.next (drain d xs).rest with
  | more =>
    rw [drain_more d hn] at hrest
    exact (congrArg Drained.error hrest).symm
  | fail e =>
    rw [drain_fail d (d.fail_append ys hn)] at h
    cases h
  | item n b =>
    rw [drain_item d hn] at hrest
    cases congrArg Drained.items hrest

/-- Append chunks one by one, draining after each; the results of the passes in order. -/
@[grind =] def feed : List α → List (List α) → List (Drained α β ε)
  | _, [] => []
  | rest, chunk :: chunks =>
    let r := drain d (rest ++ chunk)
    r :: feed r.rest chunks

theorem feed_length (rest : List α) (chunks : List (List α)) :
    (feed d rest chunks).length = chunks.length := by
  induction chunks generalizing rest with
  | nil => rfl
  | cons chunk chunks ih => simp [feed, ih]

/-- The items of all passes are those of one pass over the whole input. -/
theorem feed_items (xs : List α) (chunks : List (List α)) :
    (drain d xs).items ++ (feed d (drain d xs).rest chunks).flatMap Drained.items =
      (drain d (xs ++ chunks.flatten)).items := by
  induction chunks generalizing xs with
  | nil => simp [feed]
  | cons chunk chunks ih =>
    obtain ⟨h1, -, h3⟩ := drain_append d xs chunk
    have h := ih (xs ++ chunk)
    rw [h1, h3, List.append_assoc] at h
    simpa [feed, List.append_assoc] using h

/-- Each pass fails, and leaves a rest, as one pass over the input so far would. -/
theorem feed_pass (xs : List α) (chunks : List (List α)) :
    ∀ r ∈ feed d (drain d xs).rest chunks, ∃ k,
      r.error = (drain d (xs ++ (chunks.take k).flatten)).error ∧
        r.rest = (drain d (xs ++ (chunks.take k).flatten)).rest := by
  induction chunks generalizing xs with
  | nil => simp [feed]
  | cons chunk chunks ih =>
    obtain ⟨-, h2, h3⟩ := drain_append d xs chunk
    intro r hr
    rcases List.mem_cons.mp hr with rfl | hr
    · exact ⟨1, by simp [h2, h3]⟩
    · rw [← h3] at hr
      obtain ⟨k, hk⟩ := ih (xs ++ chunk) r hr
      exact ⟨k + 1, by simpa [List.append_assoc] using hk⟩

theorem feed_rest (xs : List α) (chunks : List (List α)) :
    ((feed d (drain d xs).rest chunks).map Drained.rest).getLast?.getD (drain d xs).rest =
      (drain d (xs ++ chunks.flatten)).rest := by
  induction chunks generalizing xs with
  | nil => simp [feed]
  | cons chunk chunks ih =>
    obtain ⟨-, -, h3⟩ := drain_append d xs chunk
    have h := ih (xs ++ chunk)
    rw [h3] at h
    simpa [feed, List.getLast?_cons, List.append_assoc] using h

/-- Where a pass ends in an error, the decoder fails on the rest. -/
theorem next_rest {xs : List α} {e : ε} (h : (drain d xs).error = some e) :
    d.next (drain d xs).rest = .fail e := by
  have hrest := drain_rest d xs
  cases hn : d.next (drain d xs).rest with
  | more =>
    rw [drain_more d hn, h] at hrest
    cases congrArg Drained.error hrest
  | fail e' =>
    rw [drain_fail d hn, h] at hrest
    rw [Option.some.inj (congrArg Drained.error hrest)]
  | item n b =>
    rw [drain_item d hn] at hrest
    cases congrArg Drained.items hrest

/-- On input that the decoder fails on, every later pass takes nothing and fails alike. -/
theorem feed_fail {rest : List α} {e : ε} (h : d.next rest = .fail e) (chunks : List (List α)) :
    (∀ r ∈ feed d rest chunks, r.items = [] ∧ r.error = some e) ∧
      ((feed d rest chunks).map Drained.rest).getLast?.getD rest = rest ++ chunks.flatten := by
  induction chunks generalizing rest with
  | nil => simp [feed]
  | cons chunk chunks ih =>
    have hfail := d.fail_append chunk h
    obtain ⟨hlater, hlast⟩ := ih hfail
    simp only [feed, drain_fail d hfail, List.map_cons, List.getLast?_cons, Option.getD_some]
    refine ⟨?_, ?_⟩
    · intro r hr
      rcases List.mem_cons.mp hr with rfl | hr
      · exact ⟨rfl, rfl⟩
      · exact hlater r hr
    · rw [hlast, List.flatten_cons, List.append_assoc]

/-- Once a pass has failed, the decoder fails on what the last pass leaves. -/
theorem next_feed_rest {rest : List α} {chunks : List (List α)} {r : Drained α β ε}
    (hr : r ∈ feed d rest chunks) {e : ε} (he : r.error = some e) :
    d.next (((feed d rest chunks).map Drained.rest).getLast?.getD rest) = .fail e := by
  induction chunks generalizing rest with
  | nil => cases hr
  | cons chunk chunks ih =>
    simp only [feed, List.map_cons, List.getLast?_cons, Option.getD_some]
    rcases List.mem_cons.mp hr with rfl | hr
    · have hfail := next_rest d he
      rw [(feed_fail d hfail chunks).2]
      exact d.fail_append _ hfail
    · exact ih hr

/-- The first error of the passes is that of one pass over the whole input. -/
theorem feed_error {xs : List α} (h : (drain d xs).error = none) (chunks : List (List α)) :
    ((feed d (drain d xs).rest chunks).flatMap fun r => r.error.toList).head? =
      (drain d (xs ++ chunks.flatten)).error := by
  induction chunks generalizing xs with
  | nil => simp [feed, h]
  | cons chunk chunks ih =>
    obtain ⟨-, herror, hrest⟩ := drain_append d xs chunk
    rw [List.flatten_cons, ← List.append_assoc, feed, List.flatMap_cons, ← herror]
    cases he : (drain d (xs ++ chunk)).error with
    | none =>
      have htail := ih he
      rw [hrest] at htail
      simpa using htail
    | some e =>
      rw [(drain_append d (xs ++ chunk) chunks.flatten).2.1,
        drain_fail d (d.fail_append _ (next_rest d he))]
      rfl

theorem feed_append (rest : List α) (chunks later : List (List α)) :
    feed d rest (chunks ++ later) = feed d rest chunks ++
      feed d (((feed d rest chunks).map Drained.rest).getLast?.getD rest) later := by
  induction chunks generalizing rest with
  | nil => simp [feed]
  | cons chunk chunks ih => simp [feed, ih, List.getLast?_cons]

theorem feed_append_rest (rest : List α) (chunks later : List (List α)) :
    ((feed d rest (chunks ++ later)).map Drained.rest).getLast?.getD rest =
      ((feed d (((feed d rest chunks).map Drained.rest).getLast?.getD rest) later).map
        Drained.rest).getLast?.getD
          (((feed d rest chunks).map Drained.rest).getLast?.getD rest) := by
  rw [feed_append, List.map_append, List.getLast?_append]
  cases ((feed d (((feed d rest chunks).map Drained.rest).getLast?.getD rest) later).map
    Drained.rest).getLast? <;> rfl

theorem feed_take (rest : List α) (chunks : List (List α)) (k : ℕ) :
    (feed d rest chunks).take k = feed d rest (chunks.take k) := by
  induction chunks generalizing rest k with
  | nil => simp [feed]
  | cons chunk chunks ih =>
    cases k with
    | zero => simp [feed]
    | succ k => simp [feed, ih]

/-- `frame` is one item to the decoder: decoded whatever follows, awaited while incomplete. -/
structure Framed (frame : List α) (value : β) : Prop where
  whole : ∀ ys, d.next (frame ++ ys) = .item frame.length value
  partial_more : ∀ p, p <+: frame → p.length < frame.length → d.next p = .more

/-- On a prefix of a stream of frames a pass decodes exactly the frames that are complete. -/
theorem drain_frames {frames : List (List α)} {values : List β}
    (h : List.Forall₂ (Framed d) frames values) {p : List α} (hp : p <+: frames.flatten) :
    ∃ j ≤ frames.length,
      drain d p = ⟨values.take j, none, p.drop (frames.take j).flatten.length⟩ ∧
      ∀ i ≤ frames.length, i ≤ j ↔ (frames.take i).flatten.length ≤ p.length := by
  induction h generalizing p with
  | nil =>
    have hnil : p = [] := by simpa using hp
    subst hnil
    exact ⟨0, le_rfl, by simp [drain_more d d.next_nil], by simp⟩
  | @cons frame value frames values hf _ ih =>
    rcases Nat.lt_or_ge p.length frame.length with hlt | hge
    · have hpre : p <+: frame :=
        List.prefix_of_prefix_length_le hp (by simp) hlt.le
      refine ⟨0, Nat.zero_le _, by simp [drain_more d (hf.partial_more p hpre hlt)], ?_⟩
      intro i _
      cases i with
      | zero => simp
      | succ i => simp; omega
    · have hpre : frame <+: p := List.prefix_of_prefix_length_le (by simp) hp hge
      obtain ⟨q, rfl⟩ := hpre
      have hq : q <+: frames.flatten := by
        simpa [List.prefix_append_right_inj] using hp
      obtain ⟨j, hj, hd, hi⟩ := ih hq
      refine ⟨j + 1, by simpa using hj, ?_, ?_⟩
      · rw [drain_item d (hf.whole q), List.drop_left, hd]
        simp [List.drop_append]
      · intro i hle
        cases i with
        | zero => simp
        | succ i =>
          have := hi i (by simpa using hle)
          simp only [List.take_succ_cons, List.flatten_cons, List.length_append]
          omega

/-- All of the frames are decoded from their stream. -/
theorem drain_flatten {frames : List (List α)} {values : List β}
    (h : List.Forall₂ (Framed d) frames values) :
    drain d frames.flatten = ⟨values, none, []⟩ := by
  obtain ⟨j, hj, hdrain, hwhole⟩ := drain_frames d h (List.prefix_refl _)
  have hall : frames.length ≤ j := (hwhole _ le_rfl).mpr (by rw [List.take_length])
  have hvalues : values.length ≤ j := h.length_eq ▸ hall
  rw [hdrain, List.take_of_length_le hvalues, List.take_of_length_le hall, List.drop_length]

/-- One stream of frames goes on with another exactly when the values do. -/
theorem frames_prefix_iff {frame : β → List α} {values values' : List β}
    (h : ∀ b ∈ values ++ values', Framed d (frame b) b) :
    (values.map frame).flatten <+: (values'.map frame).flatten ↔ values <+: values' := by
  have hframes : ∀ {bs : List β}, (∀ b ∈ bs, b ∈ values ++ values') →
      List.Forall₂ (Framed d) (bs.map frame) bs := by
    intro bs hbs
    rw [List.forall₂_map_left_iff, List.forall₂_same]
    exact fun b hb => h b (hbs b hb)
  constructor
  · intro hprefix
    have hall := drain_flatten d (hframes fun b hb => List.mem_append_left values' hb)
    obtain ⟨j, -, hdrain, -⟩ :=
      drain_frames d (hframes fun b hb => List.mem_append_right values hb) hprefix
    rw [hall] at hdrain
    have hitems : values = values'.take j := congrArg Drained.items hdrain
    exact hitems ▸ List.take_prefix j values'
  · rintro ⟨more, rfl⟩
    rw [List.map_append, List.flatten_append]
    exact List.prefix_append _ _

/-- In front of a part of a stream of frames the decoder waits, or the first frame is whole. -/
theorem next_frames {frames : List (List α)} {values : List β}
    (h : List.Forall₂ (Framed d) frames values) {p : List α} (hp : p <+: frames.flatten) :
    d.next p = .more ∨ ∃ frame frames' value values', frames = frame :: frames' ∧
      values = value :: values' ∧ d.next p = .item frame.length value ∧
      p = frame ++ p.drop frame.length := by
  cases h with
  | nil =>
    have hnil : p = [] := by simpa using hp
    exact Or.inl (hnil ▸ d.next_nil)
  | @cons frame value frames values hf _ =>
    rcases Nat.lt_or_ge p.length frame.length with hlt | hge
    · exact Or.inl (hf.partial_more p (List.prefix_of_prefix_length_le hp (by simp) hlt.le) hlt)
    · obtain ⟨q, rfl⟩ := List.prefix_of_prefix_length_le (by simp) hp hge
      exact Or.inr ⟨frame, frames, value, values, rfl, rfl, hf.whole q, by simp⟩

/-- Fed with a stream of frames, however it is cut, the decoder never fails and at every
moment has taken exactly the frames that arrived whole. -/
theorem feed_frames {frames : List (List α)} {values : List β}
    (h : List.Forall₂ (Framed d) frames values) {chunks : List (List α)}
    (hc : chunks.flatten = frames.flatten) :
    (∀ r ∈ feed d [] chunks, r.error = none) ∧
      ∀ k, ∃ j ≤ frames.length,
        ((feed d [] chunks).take k).flatMap Drained.items = values.take j ∧
        ∀ i ≤ frames.length,
          i ≤ j ↔ (frames.take i).flatten.length ≤ (chunks.take k).flatten.length := by
  have hpre : ∀ k, (chunks.take k).flatten <+: frames.flatten := by
    intro k
    rw [← hc]
    conv_rhs => rw [← List.take_append_drop k chunks, List.flatten_append]
    exact List.prefix_append _ _
  have hitems := fun cs => feed_items d [] cs
  have hpass := feed_pass d [] chunks
  rw [drain_more d d.next_nil] at hpass
  simp only [drain_more d d.next_nil, List.nil_append] at hitems hpass
  constructor
  · intro r hr
    obtain ⟨k, hk, -⟩ := hpass r hr
    obtain ⟨j, -, hd, -⟩ := drain_frames d h (hpre k)
    rw [hk, hd]
  · intro k
    obtain ⟨j, hj, hd, hi⟩ := drain_frames d h (hpre k)
    refine ⟨j, hj, ?_, hi⟩
    rw [feed_take, hitems, hd]

section Grammar

/-! A relation between items and the cells that spell them, recognised by the decoder. -/

variable {d} {W : List α → β → Prop}

/-- A pass splits the input into the spellings of its items and its rest. -/
theorem drain_spelled (hW : ∀ {xs n b}, d.next xs = .item n b → W (xs.take n) b) (xs : List α) :
    ∃ spellings, xs = spellings.flatten ++ (drain d xs).rest ∧
      List.Forall₂ W spellings (drain d xs).items := by
  induction h : xs.length using Nat.strong_induction_on generalizing xs with
  | _ len ih =>
    subst h
    cases hn : d.next xs with
    | more => exact ⟨[], by simp [drain_more d hn], by simp [drain_more d hn]⟩
    | fail e => exact ⟨[], by simp [drain_fail d hn], by simp [drain_fail d hn]⟩
    | item n b =>
      obtain ⟨hpos, hle⟩ := d.item_bounds hn
      have hlen : (xs.drop n).length < xs.length := by rw [List.length_drop]; omega
      obtain ⟨spellings, hsplit, hall⟩ := ih _ hlen (xs.drop n) rfl
      rw [drain_item d hn]
      refine ⟨xs.take n :: spellings, ?_, .cons (hW hn) hall⟩
      rw [List.flatten_cons, List.append_assoc, ← hsplit, List.take_append_drop]

/-- After a pass the decoder takes no item from the rest. -/
theorem next_rest_ne_item (xs : List α) (n : ℕ) (b : β) :
    d.next (drain d xs).rest ≠ .item n b := by
  intro hn
  have hrest := drain_rest d xs
  rw [drain_item d hn] at hrest
  cases congrArg Drained.items hrest

theorem next_rest_more {xs : List α} (h : (drain d xs).error = none) :
    d.next (drain d xs).rest = .more := by
  have hrest := drain_rest d xs
  cases hn : d.next (drain d xs).rest with
  | more => rfl
  | item n b => exact absurd hn (next_rest_ne_item xs n b)
  | fail e =>
    rw [drain_fail d hn, h] at hrest
    cases congrArg Drained.error hrest

/-- Spellings that the decoder takes whole are spelled in one way only, so a run of them that
stops where the decoder takes nothing more is the longest. -/
theorem spellings_prefix (hW : ∀ {x b} (ys : List α), W x b → d.next (x ++ ys) = .item x.length b)
    {spellings spellings' : List (List α)} {bs bs' : List β} {rest rest' : List α}
    (h : List.Forall₂ W spellings bs) (h' : List.Forall₂ W spellings' bs')
    (hrest : ∀ n b, d.next rest ≠ .item n b)
    (heq : spellings.flatten ++ rest = spellings'.flatten ++ rest') :
    spellings' <+: spellings := by
  induction h' generalizing spellings bs with
  | nil => exact List.nil_prefix
  | @cons x b spellings' bs' hx _ ih =>
    rw [List.flatten_cons, List.append_assoc] at heq
    have htake := hW (spellings'.flatten ++ rest') hx
    rw [← heq] at htake
    cases h with
    | nil => exact absurd htake (hrest _ _)
    | @cons x₀ b₀ spellings bs hx₀ h =>
      rw [List.flatten_cons, List.append_assoc] at heq htake
      rw [hW _ hx₀, Verdict.item.injEq] at htake
      obtain ⟨rfl, htail⟩ := List.append_inj heq htake.1
      exact (List.prefix_cons_inj x₀).mpr (ih h htail)

end Grammar

end RpcMuduo.StreamDecoder
