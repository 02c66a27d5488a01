import PcmStream.Ring

/- The ring as a list queue of bounded length. The window from tail to head wraps at most once, so
   each of its slots is met once; a slot outside the window is never read. -/
namespace PcmStream.Ring

structure Sound (r : Ring) (limit : Nat) : Prop where
  slots : r.slots.length = limit + 1
  head : r.head < limit + 1
  tail : r.tail < limit + 1

theorem wrapped_slot {start i cap : Nat} (inside : start < cap) (short : i ≤ cap) :
    (start + i) % cap = if start + i < cap then start + i else start + i - cap := by
  split
  · rename_i small
    exact Nat.mod_eq_of_lt small
  · rename_i large
    rw [Nat.mod_eq_sub_mod (by omega)]
    exact Nat.mod_eq_of_lt (by omega)

theorem count_eq {r : Ring} {limit : Nat} (h : r.Sound limit) :
    r.count = if r.tail ≤ r.head then r.head - r.tail else r.head + (limit + 1) - r.tail := by
  have hs := h.slots; have hh := h.head; have ht := h.tail
  -- Head and tail are below the number of slots, so that a sum wraps at most once.
  have split := wrapped_slot (i := limit + 1 - r.tail) hh (by omega)
  have same : r.head + (limit + 1) - r.tail = r.head + (limit + 1 - r.tail) := by omega
  simp only [count, capacity, hs]
  rw [same, split]
  split <;> split <;> omega

theorem count_le {r : Ring} {limit : Nat} (h : r.Sound limit) : r.count ≤ limit := by
  have hh := h.head; have ht := h.tail
  rw [count_eq h]
  split <;> omega

theorem tail_add_count {r : Ring} {limit : Nat} (h : r.Sound limit) :
    (r.tail + r.count) % (limit + 1) = r.head := by
  have hh := h.head; have ht := h.tail
  have bound := count_le h
  rw [wrapped_slot ht (by omega), count_eq h]
  split <;> split <;> omega

@[simp] theorem length_toList (r : Ring) : r.toList.length = r.count := by simp [toList]

theorem isEmpty_iff {r : Ring} {limit : Nat} (h : r.Sound limit) :
    r.isEmpty = true ↔ r.toList = [] := by
  have hh := h.head; have ht := h.tail
  rw [← List.length_eq_zero_iff, length_toList, count_eq h]
  simp only [isEmpty, beq_iff_eq]
  split <;> omega

theorem isFull_iff {r : Ring} {limit : Nat} (h : r.Sound limit) :
    r.isFull = true ↔ r.toList.length = limit := by
  simp [isFull, capacity, h.slots]

theorem next_eq {r : Ring} {limit i : Nat} (h : r.Sound limit) (inside : i < limit + 1) :
    r.next i = if i + 1 < limit + 1 then i + 1 else 0 := by
  simp only [next, capacity, h.slots]
  rw [wrapped_slot inside (by omega)]
  split <;> omega

theorem next_lt {r : Ring} {limit : Nat} (h : r.Sound limit) (i : Nat) : r.next i < limit + 1 := by
  have inside : (i + 1) % (limit + 1) < limit + 1 := Nat.mod_lt _ (Nat.succ_pos limit)
  simpa only [next, capacity, h.slots] using inside

theorem window_ne_head {r : Ring} {limit i : Nat} (h : r.Sound limit) (used : i < r.count) :
    (r.tail + i) % (limit + 1) ≠ r.head := by
  have hh := h.head; have ht := h.tail
  have bound := count_le h
  rw [wrapped_slot ht (by omega)]
  rw [count_eq h] at used
  split at used <;> split <;> omega

theorem enqueue_spec {r : Ring} {limit : Nat} (h : r.Sound limit) (value : Nat)
    (room : r.toList.length < limit) :
    ∃ r', r.enqueue value = .ok r' ∧ r'.Sound limit ∧ r'.toList = r.toList ++ [value] := by
  have notFull : ¬ r.isFull = true := by rw [isFull_iff h]; omega
  have hh := h.head; have ht := h.tail
  let r' : Ring := { r with slots := r.slots.set r.head value, head := r.next r.head }
  have sound : r'.Sound limit := ⟨by simp [r', h.slots], next_lt h r.head, ht⟩
  have grown : r'.count = r.count + 1 := by
    rw [length_toList] at room
    rw [count_eq h] at room ⊢
    rw [count_eq sound]
    simp only [r', next_eq h hh]
    split at room <;> split <;> split <;> omega
  refine ⟨r', by simp [enqueue, notFull, r'], sound, ?_⟩
  have last : (r.tail + r.count) % (limit + 1) = r.head := tail_add_count h
  simp only [toList, grown, List.range_succ, List.map_append, List.map_singleton]
  congr 1
  · apply List.map_congr_left
    intro i used
    have other := window_ne_head h (List.mem_range.mp used)
    simp [r', capacity, h.slots, Ne.symm other]
  · simp [r', capacity, h.slots, last, hh]

theorem dequeue_spec {r : Ring} {limit : Nat} (h : r.Sound limit) {value : Nat}
    {rest : List Nat} (oldest : r.toList = value :: rest) :
    ∃ r', r.dequeue = .ok (value, r') ∧ r'.Sound limit ∧ r'.toList = rest := by
  have hh := h.head; have ht := h.tail
  have filled : ¬ r.isEmpty = true := by simp [isEmpty_iff h, oldest]
  let r' : Ring := { r with tail := r.next r.tail }
  have sound : r'.Sound limit := ⟨h.slots, hh, next_lt h r.tail⟩
  have positive : r.count = rest.length + 1 := by
    rw [← length_toList, oldest, List.length_cons]
  have shrunk : r.count = r'.count + 1 := by
    rw [count_eq h] at positive ⊢
    rw [count_eq sound]
    simp only [r', next_eq h ht]
    grind
  have shifted : r.toList = r.slots.getD r.tail 0 :: r'.toList := by
    simp only [toList, shrunk, List.range_succ_eq_map, List.map_cons, List.map_map]
    congr 1
    · simp [capacity, h.slots, Nat.mod_eq_of_lt ht]
    · apply List.map_congr_left
      intro i _
      simp [r', capacity, next, h.slots, Nat.add_assoc, Nat.add_comm 1 i]
  rw [oldest, List.cons.injEq] at shifted
  exact ⟨r', by simp [dequeue, filled, shifted.1, r'], sound, shifted.2.symm⟩

theorem new_spec {limit : Nat} (fits : Fits limit) :
    ∃ r, new limit = .ok r ∧ r.Sound limit ∧ r.toList = [] := by
  have counted : addWord limit 1 = .ok (limit + 1) := by
    have small := allocLimit_lt_wordLimit
    unfold Fits slotWidth at fits
    exact addWord_eq_ok_iff.mpr ⟨by omega, rfl⟩
  have held : allocate (limit + 1) slotWidth = .ok () := allocate_eq_ok_iff.mpr fits
  refine ⟨⟨List.replicate (limit + 1) 0, 0, 0⟩, ?_, ⟨by simp, by simp, by simp⟩, ?_⟩
  · simp [new, counted, held, bind, Except.bind, pure, Except.pure]
  · simp [toList, count, capacity]

theorem enqueue_all_spec {limit : Nat} (values : List Nat) {r : Ring} (h : r.Sound limit)
    (room : r.toList.length + values.length ≤ limit) :
    ∃ r', values.foldlM enqueue r = .ok r' ∧ r'.Sound limit ∧ r'.toList = r.toList ++ values := by
  induction values generalizing r with
  | nil => exact ⟨r, rfl, h, by simp⟩
  | cons value values ih =>
    rw [List.length_cons] at room
    obtain ⟨one, done, sound, listed⟩ := enqueue_spec h value (by omega)
    have left : one.toList.length + values.length ≤ limit := by
      rw [listed, List.length_append, List.length_singleton]
      omega
    obtain ⟨r', rest, sound', listed'⟩ := ih sound left
    refine ⟨r', ?_, sound', by simp [listed', listed]⟩
    simp [List.foldlM_cons, done, bind, Except.bind, rest]

inductive Use where
  | enqueue (value : Nat)
  | dequeue
  deriving DecidableEq, Repr

def use (r : Ring) : Use → Except Fault (Option Nat) × Ring
  | .enqueue value =>
    match r.enqueue value with
    | .ok r => (.ok none, r)
    | .error f => (.error f, r)
  | .dequeue =>
    match r.dequeue with
    | .ok (value, r) => (.ok (some value), r)
    | .error f => (.error f, r)

def useAll : Ring → List Use → List (Except Fault (Option Nat)) × Ring
  | r, [] => ([], r)
  | r, u :: uses =>
    let (answer, r) := r.use u
    let (answers, r) := r.useAll uses
    (answer :: answers, r)

def Use.queue (limit : Nat) : Use → List Nat → Except Fault (Option Nat) × List Nat
  | .enqueue value, values =>
    if values.length = limit then (.error .ringOverflow, values) else (.ok none, values ++ [value])
  | .dequeue, [] => (.error .ringUnderflow, [])
  | .dequeue, oldest :: rest => (.ok (some oldest), rest)

def Use.queueAll (limit : Nat) : List Use → List Nat → List (Except Fault (Option Nat)) × List Nat
  | [], values => ([], values)
  | u :: uses, values =>
    let (answer, values) := u.queue limit values
    let (answers, values) := Use.queueAll limit uses values
    (answer :: answers, values)

/-- What a ring for `limit` values shows of the values that it holds. A ring that memory can hold has
    at most half as many slots as a word counts, so that the sum its count is taken from is a word. -/
structure Shows (r : Ring) (limit : Nat) (values : List Nat) : Prop where
  toList : r.toList = values
  bounded : values.length ≤ limit
  count : r.count = values.length
  isEmpty : r.isEmpty = true ↔ values.length = 0
  isFull : r.isFull = true ↔ values.length = limit
  capacity : r.capacity = limit + 1
  head : r.head < r.capacity
  tail : r.tail < r.capacity
  sum : 2 * r.capacity ≤ wordLimit → r.head + r.capacity < wordLimit

/-- The same ring but for the slots outside the window. -/
structure SameWindow (r r' : Ring) : Prop where
  capacity : r'.capacity = r.capacity
  head : r'.head = r.head
  tail : r'.tail = r.tail
  window : ∀ i < r.count,
    r'.slots.getD ((r.tail + i) % r.capacity) 0 = r.slots.getD ((r.tail + i) % r.capacity) 0

variable {r r' : Ring} {limit : Nat}

theorem SameWindow.toList (same : r.SameWindow r') : r'.toList = r.toList := by
  have counted : r'.count = r.count := by simp only [count, same.capacity, same.head, same.tail]
  simp only [Ring.toList, counted, same.capacity, same.tail]
  apply List.map_congr_left
  intro i used
  exact same.window i (List.mem_range.mp used)

theorem SameWindow.sound (same : r.SameWindow r') (h : r.Sound limit) : r'.Sound limit :=
  ⟨same.capacity.trans h.slots, same.head ▸ h.head, same.tail ▸ h.tail⟩

theorem shows_toList (h : r.Sound limit) : r.Shows limit r.toList := by
  have bounded := count_le h
  have capacity : r.capacity = limit + 1 := h.slots
  have head := h.head
  constructor
  · rfl
  · rwa [length_toList]
  · rw [length_toList]
  · rw [isEmpty_iff h, List.length_eq_zero_iff]
  · exact isFull_iff h
  · exact capacity
  · rwa [capacity]
  · rw [capacity]
    exact h.tail
  · omega

theorem use_queue (h : r.Sound limit) (u : Use) :
    (r.use u).1 = (u.queue limit r.toList).1 ∧ (r.use u).2.Sound limit ∧
      (r.use u).2.toList = (u.queue limit r.toList).2 := by
  cases u with
  | enqueue value =>
    by_cases full : r.toList.length = limit
    · have refused : r.enqueue value = .error .ringOverflow := by
        simp [enqueue, (isFull_iff h).mpr full]
      simp only [use, refused, Use.queue, if_pos full]
      exact ⟨trivial, h, trivial⟩
    · have room : r.toList.length < limit := by
        have bounded := count_le h
        rw [length_toList] at full ⊢
        omega
      obtain ⟨r', done, sound, listed⟩ := enqueue_spec h value room
      simp only [use, done, Use.queue, if_neg full]
      exact ⟨trivial, sound, listed⟩
  | dequeue =>
    cases listed : r.toList with
    | nil =>
      have refused : r.dequeue = .error .ringUnderflow := by
        simp [dequeue, (isEmpty_iff h).mpr listed]
      simp only [use, refused, Use.queue]
      exact ⟨trivial, h, listed⟩
    | cons oldest rest =>
      obtain ⟨r', done, sound, listed'⟩ := dequeue_spec h listed
      simp only [use, done, Use.queue]
      exact ⟨trivial, sound, listed'⟩

theorem useAll_queue (uses : List Use) (h : r.Sound limit) :
    (r.useAll uses).1 = (Use.queueAll limit uses r.toList).1 ∧ (r.useAll uses).2.Sound limit ∧
      (r.useAll uses).2.toList = (Use.queueAll limit uses r.toList).2 := by
  induction uses generalizing r with
  | nil => exact ⟨rfl, h, rfl⟩
  | cons u uses ih =>
    obtain ⟨answer, sound, listed⟩ := use_queue h u
    obtain ⟨answers, last⟩ := ih sound
    simp only [useAll, Use.queueAll, ← listed, ← answer]
    exact ⟨by rw [answers], last⟩

/-- Every run of calls on a new ring is answered as by a queue of at most `limit` values, and the ring
    shows what that queue holds. Its answers from then on do not depend on the slots outside its
    window, whatever they hold. -/
theorem ring_is_bounded_queue {limit : Nat} (fits : Fits limit) :
    ∃ r, new limit = .ok r ∧ ∀ uses : List Use,
      let after := r.useAll uses
      let queue := Use.queueAll limit uses []
      after.1 = queue.1 ∧ after.2.Shows limit queue.2 ∧
        ∀ r', after.2.SameWindow r' → ∀ more : List Use,
          let later := Use.queueAll limit more queue.2
          (after.2.useAll more).1 = later.1 ∧ (r'.useAll more).1 = later.1 ∧
            (r'.useAll more).2.Shows limit later.2 := by
  obtain ⟨r, made, sound, empty⟩ := new_spec fits
  refine ⟨r, made, ?_⟩
  intro uses after queue
  obtain ⟨answers, sound', listed⟩ := useAll_queue uses sound
  rw [empty] at answers listed
  refine ⟨answers, listed ▸ shows_toList sound', ?_⟩
  intro r' same more later
  obtain ⟨going_on, _⟩ := useAll_queue more sound'
  obtain ⟨answers', sound'', listed'⟩ := useAll_queue more (same.sound sound')
  rw [same.toList] at answers' listed'
  rw [listed] at going_on answers' listed'
  exact ⟨going_on, answers', listed' ▸ shows_toList sound''⟩

/-- Two values go round three slots; a third value and a fetch from the empty ring are refused. What
    the first value left in its slot, or anything else there, makes no difference. -/
theorem third_value_is_refused :
    Fits 2 ∧ ∃ r, new 2 = .ok r ∧
      let after := r.useAll [.enqueue 7, .dequeue, .dequeue, .enqueue 1, .enqueue 4, .enqueue 9]
      after.1 = [.ok none, .ok (some 7), .error .ringUnderflow, .ok none, .ok none,
        .error .ringOverflow] ∧
      after.2 = ⟨[7, 1, 4], 0, 1⟩ ∧ after.2.isFull = true ∧
      (useAll ⟨[5, 1, 4], 0, 1⟩ [.dequeue, .enqueue 6, .dequeue, .dequeue]).1 =
        [.ok (some 1), .ok none, .ok (some 4), .ok (some 6)] := by
  have fits : Fits 2 := by decide
  obtain ⟨r, made, runs⟩ := ring_is_bounded_queue fits
  obtain rfl : (⟨[0, 0, 0], 0, 0⟩ : Ring) = r := by
    have same : (new 2).toOption = some ⟨[0, 0, 0], 0, 0⟩ := by decide
    rw [made] at same
    exact (Option.some.inj same).symm
  obtain ⟨answers, shows, outside⟩ :=
    runs [.enqueue 7, .dequeue, .dequeue, .enqueue 1, .enqueue 4, .enqueue 9]
  have same : SameWindow (useAll ⟨[0, 0, 0], 0, 0⟩
      [.enqueue 7, .dequeue, .dequeue, .enqueue 1, .enqueue 4, .enqueue 9]).2 ⟨[5, 1, 4], 0, 1⟩ := by
    constructor <;> decide
  obtain ⟨_, later, _⟩ := outside _ same [.dequeue, .enqueue 6, .dequeue, .dequeue]
  exact ⟨fits, _, made, answers, rfl, shows.isFull.mpr rfl, later⟩

end PcmStream.Ring
