import PcmStream.Proofs.ByteQueue
import PcmStream.Proofs.SessionMoves

/- The filler between the packet queue and the device. Each fetch yields a whole buffer of the
   stream that was pushed, or none of it and a buffer of silence in its place; the buffer then waits
   until the device has been handed it. -/
namespace PcmStream

def Fetch.missed (f : Fetch) : Bool := decide (f.outcome = .ok 0)

/-- A fetch gets the whole buffer or nothing, and nothing only where less was ready. -/
def Fetch.Fair (f : Fetch) (size : Nat) : Prop :=
  f.outcome = .ok 0 ∧ f.ready < size ∨ f.outcome = .ok size ∧ size ≤ f.ready

def misses (fetches : List Fetch) : Nat := fetches.countP Fetch.missed

def hits (fetches : List Fetch) : Nat := fetches.countP fun f => !f.missed

/-- What the device gets for each fetch: silence for a miss, else the next bytes of the stream. -/
def delivery (size : Nat) : List Fetch → List UInt8 → List (List UInt8)
  | [], _ => []
  | f :: fetches, stream =>
    if f.missed then silence size :: delivery size fetches stream
    else stream.take size :: delivery size fetches (stream.drop size)

def audible : List Fetch → List (List UInt8) → List UInt8
  | f :: fetches, buffer :: buffers =>
    (if f.missed then [] else buffer) ++ audible fetches buffers
  | _, _ => []

section Lists

variable {size : Nat} {f : Fetch} {fetches : List Fetch} {stream : List UInt8}

theorem hits_cons_of_hit (hit : f.missed = false) : hits (f :: fetches) = hits fetches + 1 := by
  simp [hits, hit]

theorem hits_cons_of_miss (miss : f.missed = true) : hits (f :: fetches) = hits fetches := by
  simp [hits, miss]

theorem hits_append (later : List Fetch) : hits (fetches ++ later) = hits fetches + hits later := by
  simp [hits]

theorem hits_snoc : hits (fetches ++ [f]) = hits fetches + if f.missed then 0 else 1 := by
  cases missed : f.missed <;> simp [hits, missed]

theorem misses_snoc : misses (fetches ++ [f]) = misses fetches + if f.missed then 1 else 0 := by
  cases missed : f.missed <;> simp [misses, missed]

theorem delivery_append (more : List UInt8) (fits : hits fetches * size ≤ stream.length) :
    delivery size fetches (stream ++ more) = delivery size fetches stream := by
  induction fetches generalizing stream with
  | nil => rfl
  | cons f fetches ih =>
    cases missed : f.missed with
    | true =>
      rw [hits_cons_of_miss missed] at fits
      simp [delivery, missed, ih fits]
    | false =>
      rw [hits_cons_of_hit missed, Nat.add_mul] at fits
      have first : size ≤ stream.length := by omega
      have rest : delivery size fetches (stream.drop size ++ more) =
          delivery size fetches (stream.drop size) := ih (by rw [List.length_drop]; omega)
      simp [delivery, missed, List.take_append_of_le_length first,
        List.drop_append_of_le_length first, rest]

theorem delivery_fetches (later : List Fetch) : delivery size (fetches ++ later) stream =
    delivery size fetches stream ++ delivery size later (stream.drop (hits fetches * size)) := by
  induction fetches generalizing stream with
  | nil => simp [delivery, hits]
  | cons g fetches ih =>
    cases missed : g.missed with
    | true => simp [delivery, missed, ih, hits_cons_of_miss missed]
    | false =>
      have shifted : size + hits fetches * size = hits (g :: fetches) * size := by
        rw [hits_cons_of_hit missed, Nat.add_mul]
        omega
      simp [delivery, missed, ih, List.drop_drop, shifted]

theorem delivery_snoc : delivery size (fetches ++ [f]) stream = delivery size fetches stream ++
    [if f.missed then silence size else (stream.drop (hits fetches * size)).take size] := by
  rw [delivery_fetches]
  cases missed : f.missed <;> simp [delivery, missed]

theorem delivery_whole (fits : hits fetches * size ≤ stream.length) :
    ∀ buffer ∈ delivery size fetches stream, buffer.length = size := by
  induction fetches generalizing stream with
  | nil => simp [delivery]
  | cons f fetches ih =>
    cases missed : f.missed with
    | true =>
      rw [hits_cons_of_miss missed] at fits
      simpa [delivery, missed, silence] using ih fits
    | false =>
      rw [hits_cons_of_hit missed, Nat.add_mul] at fits
      have rest : ∀ buffer ∈ delivery size fetches (stream.drop size), buffer.length = size :=
        ih (by rw [List.length_drop]; omega)
      have first : size ≤ stream.length := by omega
      simpa [delivery, missed, first] using rest

theorem audible_delivery {buffers more : List (List UInt8)}
    (same : buffers ++ more = delivery size fetches stream) :
    audible fetches buffers <+: stream := by
  induction fetches generalizing stream buffers with
  | nil => simp [audible]
  | cons f fetches ih =>
    cases buffers with
    | nil => simp [audible]
    | cons buffer buffers =>
      cases missed : f.missed with
      | true =>
        simp only [delivery, missed, if_true, List.cons_append, List.cons.injEq] at same
        simpa [audible, missed] using ih same.2
      | false =>
        simp only [delivery, missed, Bool.false_eq_true, if_false, List.cons_append,
          List.cons.injEq] at same
        obtain ⟨later, rest⟩ := ih same.2
        refine ⟨later, ?_⟩
        simp [audible, missed, same.1, rest]

end Lists

structure Layout where
  frame : Nat
  packet : Nat
  count : Nat
  buffer : Nat
  some_frame : 0 < frame
  some_buffer : 0 < buffer
  whole_frames : frame ∣ packet
  whole_packets : packet ∣ buffer

structure Layout.Suits (l : Layout) (p : Params) (packetFrames packetCount : Nat) : Prop where
  frame : p.frameSize = l.frame
  packet : packetFrames * p.frameSize = l.packet
  count : packetCount = l.count
  buffer : p.bufferFrames * p.frameSize = l.buffer
  pool : l.buffer ≤ l.count * l.packet

structure Fifo.Carries (q : Fifo) (l : Layout) (bytes : List UInt8) : Prop where
  packetSize : q.packetSize = l.packet
  sound : q.isOpen = true → q.Sound l.packet l.count ∧ q.AtRest ∧ q.toList = bytes

namespace Fifo

variable {q : Fifo} {l : Layout} {bytes : List UInt8}

theorem close_carries (h : q.Carries l bytes) : q.close.Carries l bytes :=
  ⟨h.packetSize, by rintro ⟨⟩⟩

theorem write_carries (h : q.Carries l bytes) {src : List UInt8} (whole : l.frame ∣ bytes.length)
    (whole_src : l.frame ∣ src.length) :
    ∃ accepted q', q.write src = .ok (accepted, q') ∧ q'.Carries l (bytes ++ src.take accepted) ∧
      l.frame ∣ accepted ∧ accepted ≤ src.length := by
  cases isOpen : q.isOpen with
  | false =>
    exact ⟨0, q, write_closed isOpen src, ⟨h.packetSize, by simp [isOpen]⟩, Nat.dvd_zero _,
      Nat.zero_le _⟩
  | true =>
    obtain ⟨sound, rest, listed⟩ := h.sound isOpen
    obtain ⟨q', done, sound', rest', listed'⟩ := write_spec sound rest src
    have space : l.frame ∣ q.space := by
      have total := space_add_length sound
      rw [listed] at total
      refine (Nat.dvd_add_left whole).mp ?_
      rw [total]
      exact Nat.dvd_trans l.whole_frames (Nat.dvd_mul_left l.packet l.count)
    refine ⟨min src.length q.space, q', done, ⟨sound'.packetSize, fun _ => ⟨sound', rest', ?_⟩⟩,
      ?_, Nat.min_le_left _ _⟩
    · rw [listed', listed, Nat.min_comm, ← List.take_eq_take_min]
    · rcases Nat.le_total src.length q.space with less | more
      · rwa [Nat.min_eq_left less]
      · rwa [Nat.min_eq_right more]

theorem read_carries (h : q.Carries l bytes) {dst : List UInt8} (sized : dst.length = l.buffer) :
    (q.read dst = .ok (0, dst, q) ∧ q.available < l.buffer) ∨
    ∃ q', q.read dst = .ok (l.buffer, bytes.take l.buffer, q') ∧ l.buffer ≤ q.available ∧
      q'.Carries l (bytes.drop l.buffer) ∧ l.buffer ≤ bytes.length := by
  have aligned : dst.length % l.packet = 0 := sized ▸ Nat.mod_eq_zero_of_dvd l.whole_packets
  cases isOpen : q.isOpen with
  | false =>
    refine .inl ⟨read_closed isOpen (h.packetSize ▸ aligned), ?_⟩
    simpa [available, isOpen] using l.some_buffer
  | true =>
    obtain ⟨sound, rest, listed⟩ := h.sound isOpen
    have whole : dst.length / l.packet * l.packet = l.buffer := by
      rw [sized]
      exact Nat.div_mul_cancel l.whole_packets
    have ready : q.available = q.ready.count * l.packet := by
      simp [available, isOpen, sound.packetSize]
    have positive := sound.positive
    rcases read_spec sound aligned with ⟨short, done⟩ |
      ⟨⟨_, enough⟩, taken, q', done, sound', held, split, length⟩
    · refine .inl ⟨done, ?_⟩
      rw [ready, ← whole]
      apply Nat.mul_lt_mul_of_pos_right _ positive
      apply short.resolve_left
      intro none_wanted
      have some_buffer := l.some_buffer
      simp [← whole, none_wanted] at some_buffer
    · rw [listed] at split
      rw [sized] at length
      have rest' := atRest_congr held (sound'.packetSize.trans sound.packetSize.symm) rest
      refine .inr ⟨q', ?_, ?_, ⟨sound'.packetSize, fun _ => ⟨sound', rest', ?_⟩⟩, ?_⟩
      · rw [done, sized, split, List.take_left' length]
      · rw [ready, ← whole]
        exact Nat.mul_le_mul_right _ enough
      · rw [split, List.drop_left' length]
      · rw [split, List.length_append, length]
        exact Nat.le_add_right _ _

theorem read_open {size count : Nat} (h : q.Sound size count) {dst bytes : List UInt8} {n : Nat}
    (done : q.read dst = .ok (n, bytes, q')) : q'.isOpen = true := by
  by_cases aligned : dst.length % size = 0
  · rcases read_spec h aligned with ⟨_, missed⟩ | ⟨_, taken, q'', hit, sound, _⟩
    · rw [missed] at done
      cases done
      exact h.isOpen
    · rw [hit] at done
      cases done
      exact sound.isOpen
  · rw [read_unaligned (h.packetSize ▸ aligned)] at done
    cases done

end Fifo

/-- Where a stream stands after some fetches: what is not fetched yet waits in the packets. -/
structure Shared.Account (s : Shared) (l : Layout) (stream : List UInt8) (fetches : List Fetch) :
    Prop where
  whole : l.frame ∣ stream.length
  fetched : hits fetches * l.buffer ≤ stream.length
  fair : ∀ f ∈ fetches, f.Fair l.buffer
  silences : s.metrics.silenceBuffers = misses fetches % wordLimit
  queue : ∃ q, s.fifo = some q ∧ q.Carries l (stream.drop (hits fetches * l.buffer))

/-- Since `before` the device was handed what the fetches gave, but for the buffers `parked`. -/
def Shared.Fed (s : Shared) (l : Layout) (before : Journal) (stream : List UInt8)
    (parked : List (List UInt8)) : Prop :=
  ∃ fetches buffers, s.journal.fetches = before.fetches ++ fetches ∧
    s.journal.handed = before.handed ++ buffers ∧
    buffers ++ parked = delivery l.buffer fetches stream ∧ s.Account l stream fetches

namespace Shared

variable {s s' : Shared} {l : Layout} {before : Journal} {stream : List UInt8}
  {parked : List (List UInt8)}

theorem sound_of_fed (h : s.Fed l before stream parked) {q : Fifo} (fifo : s.fifo = some q)
    (isOpen : q.isOpen = true) : q.Sound l.packet l.count ∧ q.AtRest := by
  obtain ⟨fetches, buffers, _, _, _, account⟩ := h
  obtain ⟨q', fifo', carries⟩ := account.queue
  obtain rfl : q = q' := Option.some.inj (fifo.symm.trans fifo')
  obtain ⟨sound, rest, _⟩ := carries.sound isOpen
  exact ⟨sound, rest⟩

theorem fed_hands {more : List (List UInt8)} (h : s.Fed l before stream (more ++ parked))
    (hands : s.Hands more s') : s'.Fed l before stream parked := by
  obtain ⟨fetches, buffers, fetched, handed, same, account⟩ := h
  refine ⟨fetches, buffers ++ more, hands.journal.fetches.trans fetched, ?_, ?_, ?_⟩
  · rw [hands.journal.handed, handed, List.append_assoc]
  · rw [List.append_assoc, same]
  · exact { account with silences := hands.silences.trans account.silences,
                         queue := hands.fifo ▸ account.queue }

theorem fed_write (h : s.Fed l before stream parked) {src : List UInt8}
    (whole : l.frame ∣ src.length) :
    ∃ q accepted q', s.fifo = some q ∧ q.write src = .ok (accepted, q') ∧ l.frame ∣ accepted ∧
      accepted ≤ src.length ∧
      Fed { s with fifo := some q' } l before (stream ++ src.take accepted) parked := by
  obtain ⟨fetches, buffers, fetched, handed, same, account⟩ := h
  obtain ⟨q, fifo, carries⟩ := account.queue
  have left : l.frame ∣ (stream.drop (hits fetches * l.buffer)).length := by
    rw [List.length_drop]
    have part : l.frame ∣ hits fetches * l.buffer :=
      Nat.dvd_trans (Nat.dvd_trans l.whole_frames l.whole_packets) (Nat.dvd_mul_left _ _)
    exact Nat.dvd_sub account.whole part
  obtain ⟨accepted, q', done, carries', frames, fits⟩ := Fifo.write_carries carries left whole
  refine ⟨q, accepted, q', fifo, done, frames, fits, fetches, buffers, fetched, handed, ?_, ?_⟩
  · rw [delivery_append _ account.fetched, same]
  · refine ⟨?_, ?_, account.fair, account.silences, q', rfl, ?_⟩
    · rw [List.length_append, List.length_take, Nat.min_eq_left fits]
      exact Nat.dvd_add account.whole frames
    · rw [List.length_append]
      exact Nat.le_trans account.fetched (Nat.le_add_right _ _)
    · rwa [List.drop_append_of_le_length account.fetched]

theorem fed_close (h : s.Fed l before stream parked) :
    Fed { s with fifo := s.fifo.map Fifo.close } l before stream parked := by
  obtain ⟨fetches, buffers, fetched, handed, same, account⟩ := h
  obtain ⟨q, fifo, carries⟩ := account.queue
  exact ⟨fetches, buffers, fetched, handed, same,
    { account with queue := ⟨q.close, by simp [fifo], Fifo.close_carries carries⟩ }⟩

theorem account_miss {fetches : List Fetch} (h : s.Account l stream fetches) {f : Fetch}
    (miss : f.missed = true) (fair : f.Fair l.buffer) :
    Account { s.fetch f with metrics := s.metrics.countSilence } l stream (fetches ++ [f]) := by
  have no_hit : hits (fetches ++ [f]) = hits fetches := by simp [hits_snoc, miss]
  constructor
  · exact h.whole
  · rw [no_hit]
    exact h.fetched
  · exact List.forall_mem_append.mpr ⟨h.fair, by simpa using fair⟩
  · simp [Metrics.countSilence, bump, h.silences, misses_snoc, miss]
  · rw [no_hit]
    exact h.queue

theorem account_hit {fetches : List Fetch} (h : s.Account l stream fetches) {f : Fetch}
    (hit : f.missed = false) (fair : f.Fair l.buffer) {q : Fifo}
    (fits : l.buffer ≤ (stream.drop (hits fetches * l.buffer)).length)
    (carries : q.Carries l ((stream.drop (hits fetches * l.buffer)).drop l.buffer)) :
    Account { s.fetch f with fifo := some q } l stream (fetches ++ [f]) := by
  have one_hit : hits (fetches ++ [f]) * l.buffer = hits fetches * l.buffer + l.buffer := by
    simp [hits_snoc, hit, Nat.add_mul]
  have no_miss : misses (fetches ++ [f]) = misses fetches := by simp [misses_snoc, hit]
  have within := h.fetched
  rw [List.length_drop] at fits
  constructor
  · exact h.whole
  · omega
  · exact List.forall_mem_append.mpr ⟨h.fair, by simpa using fair⟩
  · rw [no_miss]
    exact h.silences
  · rw [one_hit, ← List.drop_drop]
    exact ⟨q, rfl, carries⟩

theorem fed_fetch (h : s.Fed l before stream []) {dst : List UInt8}
    (sized : dst.length = l.buffer) :
    ∃ q, s.fifo = some q ∧
      ((q.read dst = .ok (0, dst, q) ∧
          Fed { s.fetch ⟨q.available, .ok 0⟩ with metrics := s.metrics.countSilence }
            l before stream [silence l.buffer]) ∨
        ∃ bytes q', q.read dst = .ok (l.buffer, bytes, q') ∧ bytes.length = l.buffer ∧
          Fed { s.fetch ⟨q.available, .ok l.buffer⟩ with fifo := some q' }
            l before stream [bytes]) := by
  obtain ⟨fetches, buffers, fetched, handed, same, account⟩ := h
  obtain ⟨q, fifo, carries⟩ := account.queue
  rw [List.append_nil] at same
  have entered : ∀ f, (s.journal.fetch f).fetches = before.fetches ++ (fetches ++ [f]) := by
    intro f
    rw [Journal.fetches_fetch, fetched, List.append_assoc]
  have kept : ∀ f, (s.journal.fetch f).handed = before.handed ++ buffers := by
    intro f
    rw [Journal.handed_fetch, handed]
  refine ⟨q, fifo, ?_⟩
  -- A miss leaves the packets and parks silence; a hit takes the next bytes of the stream.
  rcases Fifo.read_carries carries sized with ⟨missed, few⟩ | ⟨q', hit, enough, carries', fits⟩
  · let f : Fetch := ⟨q.available, .ok 0⟩
    have is_miss : f.missed = true := by simp [Fetch.missed, f]
    have account' := account_miss account is_miss (.inl ⟨rfl, few⟩)
    refine .inl ⟨missed, fetches ++ [f], buffers, entered f, kept f, ?_, account'⟩
    rw [delivery_snoc, same, if_pos is_miss]
  · let f : Fetch := ⟨q.available, .ok l.buffer⟩
    have is_hit : f.missed = false := by
      simpa [Fetch.missed, f] using Nat.ne_of_gt l.some_buffer
    have account' := account_hit account is_hit (.inr ⟨rfl, enough⟩) fits carries'
    refine .inr ⟨_, q', hit, ?_, fetches ++ [f], buffers, entered f, kept f, ?_, account'⟩
    · rw [List.length_take, Nat.min_eq_left fits]
    · rw [delivery_snoc, same, is_hit]
      rfl

end Shared

namespace Filler

variable {δ κ : Type}

def parked (t : Filler δ κ) : List (List UInt8) := if t.stage = .writing then [t.buffer] else []

structure Feeds (t : Filler δ κ) (s : Shared) (l : Layout) (before : Journal)
    (stream : List UInt8) : Prop where
  supply : t.supply = .fifo
  buffer_size : t.params.bufferFrames * t.params.frameSize = l.buffer
  buffer : t.isAlive = true → t.stage ≠ .starting → t.buffer.length = l.buffer
  fed : s.Fed l before stream t.parked

variable {t : Filler δ κ} {s : Shared} {l : Layout} {before : Journal} {stream : List UInt8}

theorem feeds_quiet {t' : Filler δ κ} {s' : Shared} (h : t.Feeds s l before stream)
    (supply : t'.supply = t.supply) (params : t'.params = t.params)
    (buffer : t'.isAlive = true → t'.stage ≠ .starting → t'.buffer.length = l.buffer)
    (idle : t.stage ≠ .writing) (idle' : t'.stage ≠ .writing) (hands : s.Hands [] s') :
    t'.Feeds s' l before stream := by
  have fed := h.fed
  rw [parked, if_neg idle] at fed
  refine ⟨supply.trans h.supply, params ▸ h.buffer_size, buffer, ?_⟩
  rw [parked, if_neg idle']
  exact Shared.fed_hands fed hands

theorem start_feeds (h : t.Feeds s l before stream) (starting : t.stage = .starting) :
    (t.start s).1.Feeds (t.start s).2 l before stream := by
  have idle : t.stage ≠ .writing := by simp [starting]
  unfold start
  cases size : bytesFor t.params.bufferFrames t.params.frameSize with
  | error f =>
    exact feeds_quiet h rfl rfl (by simp [isAlive, breakDown]) idle (by simp [breakDown]) (.refl s)
  | ok size =>
    obtain ⟨_, rfl⟩ := bytesFor_eq_ok_iff.mp size
    refine feeds_quiet h rfl rfl (fun _ _ => ?_) idle (by simp) (Shared.hands_notice _ _)
    simpa [silence] using h.buffer_size

theorem check_feeds (h : t.Feeds s l before stream) (checking : t.stage = .checking) :
    (t.check s).1.Feeds (t.check s).2 l before stream := by
  have idle : t.stage ≠ .writing := by simp [checking]
  have sized := h.buffer (by simp [isAlive, checking]) (by simp [checking])
  unfold check
  split
  · exact feeds_quiet h rfl rfl (fun _ _ => sized) idle (by simp) (Shared.hands_notice _ _)
  · exact feeds_quiet h rfl rfl (fun _ _ => sized) idle (by simp) (.refl s)

theorem fill_feeds [Callback κ] (h : t.Feeds s l before stream) (filling : t.stage = .filling) :
    (t.fill s).1.Feeds (t.fill s).2 l before stream := by
  have sized := h.buffer (by simp [isAlive, filling]) (by simp [filling])
  have fed := h.fed
  rw [parked, if_neg (by simp [filling])] at fed
  obtain ⟨q, fifo, ⟨missed, fed'⟩ | ⟨bytes, q', hit, length, fed'⟩⟩ := Shared.fed_fetch fed sized
  · simp only [fill, h.supply, fifo, fillFrom, missed, if_true]
    refine ⟨rfl, h.buffer_size, fun _ _ => by simp [silence, sized], ?_⟩
    rw [parked, if_pos rfl, sized]
    exact fed'
  · have positive : l.buffer ≠ 0 := Nat.ne_of_gt l.some_buffer
    simp only [fill, h.supply, fifo, fillFrom, hit, positive, if_false]
    refine ⟨rfl, h.buffer_size, fun _ _ => length, ?_⟩
    rw [parked, if_pos rfl]
    exact fed'

variable [Device δ]

theorem write_feeds (h : t.Feeds s l before stream) (writing : t.stage = .writing) :
    (t.write s).1.Feeds (t.write s).2 l before stream := by
  obtain ⟨resumed, hands⟩ := write_spec t s
  have sized := h.buffer (by simp [isAlive, writing]) (by simp [writing])
  have fed := h.fed
  rw [parked, if_pos writing] at fed
  have idle : (t.write s).1.stage ≠ .writing := by
    rcases resumed.stage with checking | ⟨f, broken⟩
    · simp [checking]
    · simp [broken]
  refine ⟨resumed.supply.trans h.supply, ?_, fun _ _ => ?_, ?_⟩
  · rw [resumed.params]
    exact h.buffer_size
  · rw [resumed.buffer]
    exact sized
  · rw [parked, if_neg idle]
    exact Shared.fed_hands (by simpa using fed) hands

theorem step_feeds [Callback κ] (h : t.Feeds s l before stream) :
    (t.step s).1.Feeds (t.step s).2 l before stream := by
  cases stage : t.stage with
  | starting => simpa only [step, stage] using start_feeds h stage
  | checking => simpa only [step, stage] using check_feeds h stage
  | filling => simpa only [step, stage] using fill_feeds h stage
  | writing => simpa only [step, stage] using write_feeds h stage
  | finished => simpa only [step, stage] using h
  | broken f => simpa only [step, stage] using h

theorem step_fetch [Callback κ] {q : Fifo} (supply : t.supply = .fifo) (fifo : s.fifo = some q) :
    (t.stage = .filling ∧ ∃ f, f.ready = q.available ∧
      (t.step s).2.journal.fetches = s.journal.fetches ++ [f]) ∨
    (t.stage ≠ .filling ∧ (t.step s).2.journal.fetches = s.journal.fetches ∧
      (t.step s).2.fifo = s.fifo) := by
  have noticed := fun n => (Journal.hands_notice (j := s.journal) .fill n).fetches
  have still : (t.step s).2 = s → (t.step s).2.journal.fetches = s.journal.fetches ∧
      (t.step s).2.fifo = s.fifo := by
    intro same
    simp [same]
  cases stage : t.stage with
  | starting =>
    refine .inr ⟨by simp, ?_⟩
    simp only [step, stage, start]
    split
    · exact ⟨rfl, rfl⟩
    · exact ⟨noticed _, rfl⟩
  | checking =>
    refine .inr ⟨by simp, ?_⟩
    simp only [step, stage, check]
    split
    · exact ⟨noticed _, rfl⟩
    · exact ⟨rfl, rfl⟩
  | filling =>
    refine .inl ⟨rfl, ?_⟩
    simp only [step, stage, fill, supply, fifo, fillFrom]
    split
    · exact ⟨_, rfl, Journal.fetches_fetch _⟩
    · split
      · exact ⟨_, rfl, Journal.fetches_fetch _⟩
      · exact ⟨_, rfl, Journal.fetches_fetch _⟩
  | writing =>
    have hands := (write_spec t s).2
    refine .inr ⟨by simp, ?_⟩
    simp only [step, stage]
    exact ⟨hands.journal.fetches, hands.fifo⟩
  | finished => exact .inr ⟨by simp, still (by simp only [step, stage])⟩
  | broken f => exact .inr ⟨by simp, still (by simp only [step, stage])⟩

theorem step_open [Callback κ] (h : t.Feeds s l before stream)
    (is_open : ∃ q, s.fifo = some q ∧ q.isOpen = true) :
    ∃ q, (t.step s).2.fifo = some q ∧ q.isOpen = true := by
  obtain ⟨q, fifo, isOpen⟩ := is_open
  rcases step_fetch (t := t) h.supply fifo with ⟨filling, _⟩ | ⟨_, _, same⟩
  · simp only [step, filling, fill, h.supply, fifo, fillFrom]
    split
    · exact ⟨q, fifo, isOpen⟩
    · rename_i n bytes q' done
      split
      · exact ⟨q, fifo, isOpen⟩
      · exact ⟨q', rfl, Fifo.read_open (Shared.sound_of_fed h.fed fifo isOpen).1 done⟩
  · exact ⟨q, same.trans fifo, isOpen⟩

theorem finish_feeds [Callback κ] (h : t.Feeds s l before stream) :
    (t.finish s).2.Fed l before stream [] := by
  have raised : Feeds { t with stop := true } s l before stream :=
    ⟨h.supply, h.buffer_size, h.buffer, h.fed⟩
  have kept : (t.finish s).1.Feeds (t.finish s).2 l before stream :=
    finishFuel_keeps (P := fun t s => t.Feeds s l before stream) (fun _ _ => step_feeds) 3 raised
  have dead := finish_ends t s
  have idle : (t.finish s).1.stage ≠ .writing := by
    intro writing
    simp [isAlive, writing] at dead
  simpa [parked, idle] using kept.fed

theorem release_feeds [Callback κ] (h : t.Feeds s l before stream) :
    (t.release s).Fed l before stream [] := by
  have ended := finish_feeds h
  simp only [release]
  split
  · exact Shared.fed_hands ended (Shared.hands_notice _ _)
  · have closed : (t.finish s).2.Hands [] { (t.finish s).2 with
        journal := Device.disconnectIn (t.finish s).1.device (t.finish s).2.journal } :=
      ⟨rfl, rfl, Device.disconnectIn_hands _ _⟩
    exact Shared.fed_hands ended closed

end Filler

end PcmStream
