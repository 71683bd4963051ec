import Nsq.Proofs.Command.Decoding
import Nsq.Command.Sink

/-!
# A failed write leaves a prefix

Whatever a writer does, what it was handed is a prefix of the octets of a command, and all of them
exactly if there was no failure (`Writer.Reaches`). A writer that takes `room` octets in all, in
pieces of any size, and then no more (`Writer.Rationed`) takes as many octets of the command as
there is room for (`Writer.Fills`), wherever the limit falls.

Both are said of a run of octets and the writer that it is handed to, and both are kept when more is
handed over after a success (`Writer.Additive`). So they are shown for one call and hold of pieces,
of commands and of runs of commands.
-/

namespace Nsq

namespace Writer

variable {σ : Type}

/-- A relation between octets, the writer that they are handed to and what comes of it, which holds
of octets that are handed over in two parts if it holds of the parts. -/
structure Additive (P : Octets → σ → Except IoFault Unit × σ → Prop) : Prop where
  nil : ∀ w, P [] w (.ok (), w)
  ok : ∀ {b b' w w' r}, P b w (.ok (), w') → P b' w' r → P (b ++ b') w r
  error : ∀ {b b' w w' fault}, P b w (.error fault, w') → P (b ++ b') w (.error fault, w')

variable {P : Octets → σ → Except IoFault Unit × σ → Prop}

theorem Additive.andThen (hP : Additive P) {b b' : Octets} {w : σ} {r : Except IoFault Unit × σ}
    {next : σ → Except IoFault Unit × σ} (h : P b w r) (hnext : ∀ w', P b' w' (next w')) :
    P (b ++ b') w (andThen r next) := by
  obtain ⟨_ | _, w'⟩ := r
  · exact hP.error h
  · exact hP.ok h (hnext w')

variable [Writer σ]

theorem Additive.writePieces (hP : Additive P) (hall : ∀ b w, P b w (writeAll w b))
    (ps : List Octets) (w : σ) : P ps.flatten w (writePieces w ps) := by
  induction ps generalizing w with
  | nil => exact hP.nil w
  | cons p ps ih => exact hP.andThen (hall p w) ih

theorem Additive.handTo (hP : Additive P) (hall : ∀ b w, P b w (writeAll w b)) {c : Command}
    (hc : c.fits = true) (w : σ) : P c.octets w (c.handTo w) := by
  rw [Command.octets, List.flatten_append]
  refine hP.andThen (hP.writePieces hall c.linePieces w) fun w' => ?_
  rw [if_pos hc]
  exact hP.writePieces hall c.bodyPieces w'

theorem Additive.handAll (hP : Additive P) (hall : ∀ b w, P b w (writeAll w b))
    {cs : List Command} (hcs : ∀ c ∈ cs, c.fits = true) (w : σ) :
    P (cs.flatMap Command.octets) w (Command.handAll w cs) := by
  induction cs generalizing w with
  | nil => exact hP.nil w
  | cons c cs ih =>
    obtain ⟨hc, hcs⟩ := List.forall_mem_cons.mp hcs
    exact hP.andThen (hP.handTo hall hc w) (ih hcs)

/-! ### Any writer -/

/-- The writer took a prefix of the octets, and all of them exactly if there was no failure. -/
def Reaches (b : Octets) (w : σ) (r : Except IoFault Unit × σ) : Prop :=
  ∃ n ≤ b.length, taken r.2 = taken w ++ b.take n ∧ (r.1 = .ok () ↔ n = b.length)

theorem additive_reaches : Additive (Reaches (σ := σ)) where
  nil w := ⟨0, Nat.zero_le _, by simp⟩
  ok := by
    rintro b b' w w' r ⟨n, -, htaken, hok⟩ ⟨m, hm, htaken', hok'⟩
    obtain rfl := hok.mp rfl
    refine ⟨b.length + m, by simp [hm], ?_, ?_⟩
    · rw [htaken', htaken, List.take_length, List.take_length_add_append, List.append_assoc]
    · rw [hok', List.length_append, Nat.add_left_cancel_iff]
  error := by
    rintro b b' w w' fault ⟨n, hn, htaken, hok⟩
    have hlt : n < b.length := Nat.lt_of_le_of_ne hn fun h => nomatch hok.mpr h
    refine ⟨n, by simp only [List.length_append]; omega, ?_, ?_⟩
    · rw [htaken, List.take_append_of_le_length hn]
    · simp only [List.length_append, reduceCtorEq, false_iff]
      omega

theorem reaches_writeAll (b : Octets) (w : σ) : Reaches b w (writeAll w b) := by
  fun_induction writeAll w b with
  | case1 w => exact additive_reaches.nil w
  | case2 w o rest fault w' h =>
    exact ⟨0, Nat.zero_le _, by simp [offer_error h], by simp⟩
  | case3 w o rest w' h =>
    exact ⟨0, Nat.zero_le _, (offer_ok h).2, by simp⟩
  | case4 w o rest n w' h ih =>
    -- what was taken at once stands in front of what is taken later
    obtain ⟨hn, htaken⟩ := offer_ok h
    have hfront : Reaches ((o :: rest).take (n + 1)) w (.ok (), w') :=
      ⟨_, Nat.le_refl _, by rw [htaken, List.take_length], by simp⟩
    have hboth := additive_reaches.ok hfront ih
    rwa [List.take_succ_cons, List.cons_append, List.take_append_drop] at hboth

/-- **What is written is a prefix**, whatever the writer does, and whole exactly on success. -/
theorem reaches_handAll {cs : List Command} (hcs : ∀ c ∈ cs, c.fits = true) (w : σ) :
    Reaches (cs.flatMap Command.octets) w (Command.handAll w cs) :=
  additive_reaches.handAll reaches_writeAll hcs w

/-! ### Writers with so much room -/

/-- The writer never fails; of what is on offer it takes something as long as it has room, and
`room` is how many octets it still takes in all. -/
def Rationed (room : σ → Nat) : Prop :=
  ∀ w b, b ≠ [] → ∃ n w', offer w b = (.ok n, w') ∧ (n = 0 ↔ room w = 0) ∧ room w' + n = room w

/-- The writer took as many of the octets as it had room for, and it was full if they were more. -/
structure Fills (room : σ → Nat) (b : Octets) (w : σ) (r : Except IoFault Unit × σ) : Prop where
  taken : taken r.2 = taken w ++ b.take (room w)
  left : room r.2 = room w - b.length
  result : r.1 = if b.length ≤ room w then .ok () else .error .fullWriter

variable {room : σ → Nat} {b : Octets} {w w' : σ} {r : Except IoFault Unit × σ}

theorem Fills.length_le (h : Fills room b w (.ok (), w')) : b.length ≤ room w := by
  by_contra hlt
  have hresult := h.result
  rw [if_neg hlt] at hresult
  cases hresult

theorem Fills.lt_length {fault : IoFault} (h : Fills room b w (.error fault, w')) :
    room w < b.length ∧ fault = .fullWriter := by
  have hresult := h.result
  split_ifs at hresult with hle
  exact ⟨Nat.lt_of_not_le hle, Except.error.inj hresult⟩

theorem Fills.ok_iff (h : Fills room b w r) : r.1 = .ok () ↔ b.length ≤ room w := by
  rw [h.result]
  split_ifs with hle <;> simp [hle]

theorem additive_fills (room : σ → Nat) : Additive (Fills room) where
  nil w := ⟨by simp, rfl, rfl⟩
  ok := by
    intro b b' w w' r h h'
    have hle := h.length_le
    have hroom : room w' = room w - b.length := h.left
    have htaken : Writer.taken w' = Writer.taken w ++ b.take (room w) := h.taken
    constructor
    · rw [h'.taken, htaken, hroom, List.take_append, List.append_assoc]
    · rw [h'.left, hroom, List.length_append, Nat.sub_sub]
    · rw [h'.result, hroom, List.length_append]
      exact if_congr (by omega) rfl rfl
  error := by
    intro b b' w w' fault h
    obtain ⟨hlt, rfl⟩ := h.lt_length
    have htaken : Writer.taken w' = Writer.taken w ++ b.take (room w) := h.taken
    have hroom : room w' = room w - b.length := h.left
    constructor
    · rw [htaken, List.take_append_of_le_length (Nat.le_of_lt hlt)]
    · simp only [hroom, List.length_append]
      omega
    · rw [List.length_append, if_neg (by omega)]

theorem fills_writeAll (hw : Rationed room) (b : Octets) (w : σ) :
    Fills room b w (writeAll w b) := by
  fun_induction writeAll w b with
  | case1 w => exact (additive_fills room).nil w
  | case2 w o rest fault w' h =>
    obtain ⟨n, w'', hoffer, -⟩ := hw w (o :: rest) (List.cons_ne_nil o rest)
    rw [h] at hoffer
    cases hoffer
  | case3 w o rest w' h =>
    obtain ⟨n, w'', hoffer, hzero, hroom⟩ := hw w (o :: rest) (List.cons_ne_nil o rest)
    rw [h] at hoffer
    cases hoffer
    have hfull : room w = 0 := hzero.mp rfl
    exact ⟨by rw [(offer_ok h).2, hfull], by simp only; omega, by simp [hfull]⟩
  | case4 w o rest n w' h ih =>
    obtain ⟨m, w'', hoffer, -, hroom⟩ := hw w (o :: rest) (List.cons_ne_nil o rest)
    rw [h] at hoffer
    cases hoffer
    obtain ⟨hn, htaken⟩ := offer_ok h
    have hlen : ((o :: rest).take (n + 1)).length = n + 1 := List.length_take_of_le hn
    have hfront : Fills room ((o :: rest).take (n + 1)) w (.ok (), w') := by
      refine ⟨?_, ?_, ?_⟩
      · rw [htaken, List.take_of_length_le (i := room w) (by omega)]
      · rw [hlen]
        simp only
        omega
      · rw [hlen, if_pos (by omega)]
    have hboth := (additive_fills room).ok hfront ih
    rwa [List.take_succ_cons, List.cons_append, List.take_append_drop] at hboth

/-! ### Writers that are given -/

theorem rationed_sink : Rationed Sink.room := by
  intro w b hb
  have hpos := List.length_pos_iff.mpr hb
  exact ⟨min b.length w.room, _, rfl, by omega, by simp only; omega⟩

/-- A command is handed to a sink up to its room. -/
theorem fills_writeTo {c : Command} (hc : c.fits = true) (w : Sink) :
    Fills Sink.room c.octets w (c.writeTo w) :=
  (additive_fills Sink.room).handTo (fills_writeAll rationed_sink) hc w

end Writer

/-- A writer that takes octets until its room is used up, each time one more than the next of its
portions, and what is on offer once there are no more portions. -/
structure Portioned extends Sink where
  /-- How many octets it takes at a time, less one. -/
  portions : List Nat := []
deriving DecidableEq, Repr

namespace Portioned

/-- The most that is taken at once. -/
def most (w : Portioned) : Nat :=
  match w.portions with
  | [] => w.room
  | p :: _ => min (p + 1) w.room

theorem most_bounds (w : Portioned) : w.most ≤ w.room ∧ (w.most = 0 ↔ w.room = 0) := by
  unfold most
  split <;> omega

instance : Writer Portioned where
  taken w := w.taken
  offer w b :=
    let n := min b.length w.most
    (.ok n, ⟨⟨w.taken ++ b.take n, w.room - n⟩, w.portions.tail⟩)
  offer_ok h := by
    obtain ⟨hn, rfl⟩ := Prod.mk.inj h
    obtain rfl := Except.ok.inj hn
    exact ⟨Nat.min_le_left _ _, rfl⟩
  offer_error h := nomatch h

/-- Portions of any size are pieces of any size. -/
theorem rationed : Writer.Rationed fun w : Portioned => w.room := by
  intro w b hb
  have hpos := List.length_pos_iff.mpr hb
  obtain ⟨hle, hzero⟩ := w.most_bounds
  exact ⟨min b.length w.most, _, rfl, by dsimp only; omega, by dsimp only; omega⟩

end Portioned

namespace Command

open Writer

variable {σ : Type} [Writer σ]

theorem additive_memory : Additive fun (b w : Octets) r => r = (.ok (), w ++ b) where
  nil w := by rw [List.append_nil]
  ok := by
    rintro b b' w w' r h rfl
    rw [(Prod.mk.inj h).2, List.append_assoc]
  error h := nomatch (Prod.mk.inj h).1

/-- Octets in memory take a command whole. -/
theorem handTo_memory {c : Command} (hc : c.fits = true) (b : Octets) :
    c.handTo b = (.ok (), b ++ c.octets) := by
  refine additive_memory.handTo (fun b w => ?_) hc b
  cases b with
  | nil => rw [writeAll, List.append_nil]
  | cons o rest =>
    have hoffer : Writer.offer w (o :: rest) = (.ok (rest.length + 1), w ++ o :: rest) := rfl
    rw [writeAll, hoffer]
    simp only [List.drop_length, writeAll]

/-- **A failed write leaves a prefix.** A writer that takes octets in pieces of any size until its
room is used up takes of a command as many octets as it has room for. That is all of them exactly if
there was no failure, and the failure is that the writer is full. The octets are those that the
command has in memory. Behind a command that was written whole come the octets of the next ones, up
to the room that is left. -/
theorem handTo_takes_prefix {room : σ → Nat} (hw : Rationed room) {c : Command}
    (hc : c.fits = true) (w : σ) :
    ∃ octets, c.encode = .ok octets ∧ c.handTo ([] : Octets) = (.ok (), octets) ∧
      taken (c.handTo w).2 = taken w ++ octets.take (min (room w) octets.length) ∧
      ((c.handTo w).1 = .ok () ↔ octets.length ≤ room w) ∧
      (room w < octets.length →
        ∃ fault, (c.handTo w).1 = .error fault ∧ fault.kind = .writeZero) ∧
      ∀ cs : List Command, (∀ d ∈ cs, d.fits = true) → (c.handTo w).1 = .ok () →
        ∃ runs, cs.mapM encode = .ok runs ∧
          taken (handAll w (c :: cs)).2 =
            taken w ++ octets ++ runs.flatten.take (room w - octets.length) ∧
          ((handAll w (c :: cs)).1 = .ok () ↔
            octets.length + runs.flatten.length ≤ room w) := by
  have hone := (additive_fills room).handTo (fills_writeAll hw) hc w
  refine ⟨c.octets, if_pos hc, handTo_memory hc [], ?_, hone.ok_iff, fun hlt => ?_,
    fun cs hcs hok => ?_⟩
  · rw [hone.taken, List.take_eq_take_min]
  · exact ⟨.fullWriter, by rw [hone.result, if_neg (Nat.not_le_of_lt hlt)], rfl⟩
  · have hall := (additive_fills room).handAll (fills_writeAll hw)
      (List.forall_mem_cons.mpr ⟨hc, hcs⟩) w
    rw [List.flatMap_cons, List.flatMap_def] at hall
    refine ⟨cs.map octets, mapM_encode hcs, ?_, ?_⟩
    · rw [hall.taken, List.take_append, List.take_of_length_le (hone.ok_iff.mp hok),
        List.append_assoc]
    · rw [hall.ok_iff, List.length_append]

/-- A publication is cut inside of its body by a writer that takes three octets at first. -/
theorem handTo_takes_prefix_portioned :
    let c := publish "events" (Octets.ofString "hello")
    let w : Portioned := ⟨⟨[], 17⟩, [2, 0, 0]⟩
    Rationed (fun w : Portioned => w.room) ∧ c.fits = true ∧
    ∃ octets, c.encode = .ok octets ∧ c.handTo ([] : Octets) = (.ok (), octets) ∧
      taken (c.handTo w).2 = taken w ++ octets.take (min w.room octets.length) ∧
      ((c.handTo w).1 = .ok () ↔ octets.length ≤ w.room) ∧
      (w.room < octets.length →
        ∃ fault, (c.handTo w).1 = .error fault ∧ fault.kind = .writeZero) ∧
      ∀ cs : List Command, (∀ d ∈ cs, d.fits = true) → (c.handTo w).1 = .ok () →
        ∃ runs, cs.mapM encode = .ok runs ∧
          taken (handAll w (c :: cs)).2 =
            taken w ++ octets ++ runs.flatten.take (w.room - octets.length) ∧
          ((handAll w (c :: cs)).1 = .ok () ↔
            octets.length + runs.flatten.length ≤ w.room) :=
  ⟨Portioned.rationed, rfl, handTo_takes_prefix Portioned.rationed rfl _⟩

end Command

end Nsq
