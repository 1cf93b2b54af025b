import Peerc.Peer.ReadLoop

-- What the read loops dispatch

namespace Protocol

variable {P : Primitives} {stream rest f : Bytes} {p : Packet} {ps ps' : List Packet}

theorem nextPacket_run (P : Primitives) (stream : Bytes) : (nextPacket readExactly P).run stream =
    match (readRaw readExactly).run stream with
    | .error e rest => .error e rest
    | .ok (.json, payload) rest =>
      match decodeJson P payload with
      | .error e    => .error (.frame e) rest
      | .ok message =>
        match validateMessage message with
        | .error e => .error (.frame (.protocolError e)) rest
        | .ok _    => .ok (.json message) rest
    | .ok (.binary, payload) rest =>
      match decodeFileData payload with
      | .error e => .error (.frame (.protocolError e)) rest
      | .ok d    => .ok (.fileData d.transferId d.sequence d.offset d.data) rest := by
  simp only [nextPacket, readAnyFrame, EStateM.run_bind]
  cases (readRaw readExactly).run stream
  case error => rfl
  case ok x rest =>
    obtain ⟨kind, payload⟩ := x
    cases kind
    case json =>
      dsimp only
      cases decodeJson P payload
      case error => rfl
      case ok message =>
        simp only [EStateM.run_pure]
        cases validateMessage message <;> rfl
    case binary =>
      simp only [EStateM.run_pure]
      cases decodeFileData payload <;> rfl

theorem readRaw_encodeRaw {kind : FrameKind} {payload : Bytes} (hp : payload ≠ [])
    (hl : payload.length ≤ maxMessageSize) (rest : Bytes) :
    (readRaw readExactly).run (encodeRaw kind payload ++ rest) = .ok (kind, payload) rest := by
  cases kind
  case json =>
    rw [encodeRaw, List.append_assoc]
    exact readRaw_run (isHeader_json hl) hp hl rest
  case binary =>
    have hh := isHeader_binary hl
    rw [encodeRaw, List.append_assoc]
    generalize Bytes.ofNatBE 4 (payload.length + binaryFlag) = header at hh ⊢
    exact readRaw_run hh hp hl rest

theorem ne_nil_of_decodeFileData {payload : Bytes} {d : FileData} (h : decodeFileData payload = .ok d) :
    payload ≠ [] := by
  rintro rfl
  cases h

-- A round succeeds exactly on a valid frame.
theorem nextPacket_eq_ok_iff : (nextPacket readExactly P).run stream = .ok p rest ↔
    ∃ f, IsFrame P f p ∧ stream = f ++ rest := by
  rw [nextPacket_run]
  constructor
  case mp =>
    intro h
    cases hr : (readRaw readExactly).run stream
    case error e r =>
      rw [hr] at h
      cases h
    case ok x r =>
      obtain ⟨kind, payload⟩ := x
      rw [hr] at h
      obtain ⟨header, hh, hp, hl, hs⟩ := readRaw_eq_ok_iff.mp hr
      rw [← List.append_assoc, hh.append_eq] at hs
      cases kind
      case json =>
        dsimp only at h
        cases hd : decodeJson P payload <;> rw [hd] at h
        case error => cases h
        case ok message =>
          dsimp only at h
          cases hv : validateMessage message <;> rw [hv] at h <;> cases h
          exact ⟨_, .json hp hl hd hv, hs⟩
      case binary =>
        dsimp only at h
        cases hd : decodeFileData payload <;> rw [hd] at h <;> cases h
        exact ⟨_, .binary hl hd, hs⟩
  case mpr =>
    rintro ⟨f, hf, rfl⟩
    cases hf
    case json payload message hp hl hd hv => simp only [readRaw_encodeRaw hp hl, hd, hv]
    case binary payload d hl hd =>
      simp only [readRaw_encodeRaw (ne_nil_of_decodeFileData hd) hl, hd]

-- Frames that decode to `ps`, one after the other
def Decodes (P : Primitives) (stream : Bytes) (ps : List Packet) (rest : Bytes) : Prop :=
  ∃ frames, List.Forall₂ (IsFrame P) frames ps ∧ stream = frames.flatten ++ rest

-- No valid frame begins here: the next one is invalid or incomplete, or there is none.
def Stuck (P : Primitives) (stream : Bytes) : Prop :=
  ∀ f p, IsFrame P f p → ¬f <+: stream

-- `ps` is the decoding of the longest prefix of valid frames.
def ValidPrefix (P : Primitives) (stream : Bytes) (ps : List Packet) : Prop :=
  ∃ rest, Decodes P stream ps rest ∧ Stuck P rest

theorem Decodes.nil (P : Primitives) (stream : Bytes) : Decodes P stream [] stream :=
  ⟨[], .nil, rfl⟩

theorem Decodes.snoc {tail : Bytes} (h : Decodes P stream ps rest) (hf : IsFrame P f p)
    (hr : rest = f ++ tail) : Decodes P stream (ps ++ [p]) tail := by
  obtain ⟨frames, hfs, rfl⟩ := h
  refine ⟨frames ++ [f], List.rel_append hfs (.cons hf .nil), ?_⟩
  simp [hr]

theorem IsFrame.unique {f' : Bytes} {p' : Packet} {rest' : Bytes} (h : IsFrame P f p)
    (h' : IsFrame P f' p') (hs : f ++ rest = f' ++ rest') : p = p' ∧ rest = rest' := by
  have hr : (nextPacket readExactly P).run (f ++ rest) = .ok p rest :=
    nextPacket_eq_ok_iff.mpr ⟨f, h, rfl⟩
  cases hr.symm.trans (nextPacket_eq_ok_iff.mpr ⟨f', h', hs⟩)
  exact ⟨rfl, rfl⟩

theorem ValidPrefix.unique (h : ValidPrefix P stream ps) (h' : ValidPrefix P stream ps') : ps = ps' := by
  obtain ⟨rest, ⟨frames, hfs, rfl⟩, hstuck⟩ := h
  obtain ⟨rest', ⟨frames', hfs', hs⟩, hstuck'⟩ := h'
  induction hfs generalizing frames' ps'
  case nil =>
    cases hfs'
    case nil => rfl
    case cons hf _ =>
      rw [List.flatten_cons, List.append_assoc] at hs
      exact absurd ⟨_, hs.symm⟩ (hstuck _ _ hf)
  case cons hf _ hi =>
    cases hfs'
    case nil =>
      rw [List.flatten_cons, List.append_assoc] at hs
      exact absurd ⟨_, hs⟩ (hstuck' _ _ hf)
    case cons hf' hfs' =>
      simp only [List.flatten_cons, List.append_assoc] at hs
      obtain ⟨rfl, hs⟩ := hf.unique hf' hs
      rw [hi _ hfs' hs]

-- The same for a reader, whatever the segments are

theorem nextPacket_refines (P : Primitives) :
    EStateM.Refines StreamReader.bytes (nextPacket StreamReader.readExactly P)
      (nextPacket readExactly P) := by
  refine (readAnyFrame_refines P readExactly_refines).bind fun frame => ?_
  cases frame
  case json message =>
    dsimp only
    split
    · exact .pure _
    · exact .throw _
  case binary payload =>
    dsimp only
    split
    · exact .pure _
    · exact .throw _

variable {r r' : StreamReader}

theorem nextPacket_reader_ok (h : (nextPacket StreamReader.readExactly P).run r = .ok p r') :
    ∃ f, IsFrame P f p ∧ r.bytes = f ++ r'.bytes :=
  nextPacket_eq_ok_iff.mp ((nextPacket_refines P).ok h)

theorem nextPacket_reader_error {e : ReadError}
    (h : (nextPacket StreamReader.readExactly P).run r = .error e r') : Stuck P r.bytes := by
  rintro f p hf ⟨rest, hr⟩
  have hok := nextPacket_eq_ok_iff.mpr ⟨f, hf, hr.symm⟩
  rw [nextPacket_refines P r, h] at hok
  cases hok

theorem IsFrame.length_pos (h : IsFrame P f p) : 0 < f.length := by
  cases h <;> simp [encodeRaw]

end Protocol

open Protocol

namespace ReadLoops

variable {P : Primitives} {hooks : Hooks} {s s' : ReadLoops} {c : Connection} {stream : Bytes}
variable {ps : List Packet} {e : LoopEvent}

-- The messages of one connection
def of (c : Connection) (log : List (Connection × Packet)) : List Packet :=
  (log.filter (·.fst = c)).map Prod.snd

-- What a step does
inductive Effect (P : Primitives) (hooks : Hooks) (s : ReadLoops) : LoopEvent → ReadLoops → Prop
  | other {e : ManagerEvent} {manager : ManagerState} (notEnd : ∀ conn, e ≠ .loopEnds conn)
    (step : s.toManagerState.step e = some manager) :
    Effect P hooks s (.other e) { s with toManagerState := manager }
  | dispatch {conn : Connection} {f : Bytes} {p : Packet} {reader : StreamReader}
    (running : conn ∈ s.running) (idle : ∀ x ∈ s.handing, x.fst ≠ conn) (frame : IsFrame P f p)
    (bytes : (s.readers conn).bytes = f ++ reader.bytes) :
    Effect P hooks s (.read conn) (s.dispatch hooks conn p reader)
  | finish {conn : Connection} (running : conn ∈ s.running) (idle : ∀ x ∈ s.handing, x.fst ≠ conn)
    (stuck : Stuck P (s.readers conn).bytes) :
    Effect P hooks s (.read conn) { s with
      connections := s.connections.erase conn.addrKey
      running     := s.running.filter (· ≠ conn)
      closed      := conn :: s.closed }
  | handOver {conn : Connection} {x : Connection × Packet} (found : s.handing.find? (·.fst = conn) = some x) :
    Effect P hooks s (.handOver conn) { s with
      handing := s.handing.filter (·.fst ≠ conn)
      handed  := if hooks.onMessage then s.handed ++ [x] else s.handed }

theorem finish_eq (h : c ∈ s.running) : s.finish c = some { s with
    connections := s.connections.erase c.addrKey
    running     := s.running.filter (· ≠ c)
    closed      := c :: s.closed } := by
  simp only [ReadLoops.finish, ManagerState.step, if_pos h, Option.map_some]

theorem step_effect (h : step P hooks s e = some s') : Effect P hooks s e s' := by
  cases e
  case other e =>
    have hother (he : ∀ conn, e ≠ .loopEnds conn)
        (h : (s.toManagerState.step e).map ({ s with toManagerState := · }) = some s') :
        Effect P hooks s (.other e) s' := by
      obtain ⟨manager, hm, rfl⟩ := Option.map_eq_some_iff.mp h
      exact .other he hm
    cases e
    case loopEnds => cases h
    all_goals exact hother (fun _ => by rintro ⟨⟩) h
  case read conn =>
    simp only [step] at h
    split at h
    case isFalse => cases h
    case isTrue hc =>
      split at h
      case h_1 p reader hr =>
        obtain ⟨f, hf, hb⟩ := nextPacket_reader_ok hr
        cases h
        exact .dispatch hc.left hc.right hf hb
      case h_2 hr =>
        rw [finish_eq hc.left] at h
        cases h
        exact .finish hc.left hc.right (nextPacket_reader_error hr)
  case handOver conn =>
    obtain ⟨x, hx, rfl⟩ := Option.map_eq_some_iff.mp h
    exact .handOver hx

@[simp]
theorem of_append (c : Connection) (log log' : List (Connection × Packet)) :
    of c (log ++ log') = of c log ++ of c log' := by
  simp [of]

theorem of_eq_nil {log : List (Connection × Packet)} (h : ∀ x ∈ log, x.fst ≠ c) : of c log = [] := by
  rw [of, List.filter_eq_nil_iff.mpr (by simpa using h), List.map_nil]

theorem of_singleton (x : Connection × Packet) : of c [x] = if x.fst = c then [x.snd] else [] := by
  by_cases h : x.fst = c <;> simp [of, h]

theorem of_filter_ne {conn : Connection} (h : c ≠ conn) (log : List (Connection × Packet)) :
    of c (log.filter (·.fst ≠ conn)) = of c log := by
  rw [of, List.filter_filter, of]
  congr 2
  funext x
  by_cases hx : x.fst = c <;> simp [hx, h]

theorem of_filter_self (log : List (Connection × Packet)) : of c (log.filter (·.fst ≠ c)) = [] :=
  of_eq_nil fun y hy => by simpa using List.of_mem_filter hy

theorem eq_singleton_of_mem {p : Packet} (hl : ps.length ≤ 1) (h : p ∈ ps) : ps = [p] := by
  rcases ps with _ | ⟨q, _ | ⟨_, _⟩⟩
  case nil => cases h
  case cons.nil => rw [List.mem_singleton.mp h]
  case cons.cons =>
    simp only [List.length_cons] at hl
    omega

-- The connection has read the frames of `ps`, and what was read is passed on in this order.
structure Dispatched (P : Primitives) (hooks : Hooks) (stream : Bytes) (c : Connection) (s : ReadLoops)
    (ps : List Packet) : Prop where
  frames    : Decodes P stream ps (s.readers c).bytes
  published : hooks.eventBus → of c s.published = ps
  handed    : hooks.onMessage → of c s.handed ++ of c s.handing = ps
  single    : (of c s.handing).length ≤ 1

theorem Dispatched.effect (h : Dispatched P hooks stream c s ps) (he : Effect P hooks s e s') :
    ∃ ps, Dispatched P hooks stream c s' ps := by
  cases he
  case other => exact ⟨ps, h.frames, h.published, h.handed, h.single⟩
  case finish => exact ⟨ps, h.frames, h.published, h.handed, h.single⟩
  case dispatch conn f p reader hr hi hf hb =>
    by_cases hc : conn = c
    case pos =>
      subst hc
      have hn : of conn s.handing = [] := of_eq_nil hi
      have ho : of conn ((conn, p) :: s.handing) = [p] := by
        rw [← List.singleton_append, of_append, hn, of_singleton, if_pos rfl, List.append_nil]
      refine ⟨ps ++ [p], ?_, fun hbus => ?_, fun hon => ?_, ?_⟩
      · simp only [ReadLoops.dispatch, Function.update_self]
        exact h.frames.snoc hf hb
      · simp only [ReadLoops.dispatch, if_pos hbus, of_append, h.published hbus, of_singleton, if_pos]
      · have := h.handed hon
        simp only [ReadLoops.dispatch, ho]
        rw [← this, hn, List.append_nil]
      · simp [ReadLoops.dispatch, ho]
    case neg =>
      have ho : of c ((conn, p) :: s.handing) = of c s.handing := by
        rw [← List.singleton_append, of_append, of_singleton, if_neg hc, List.nil_append]
      refine ⟨ps, ?_, fun hbus => ?_, fun hon => ?_, ?_⟩
      · simp only [ReadLoops.dispatch, Function.update_of_ne (Ne.symm hc)]
        exact h.frames
      · simp only [ReadLoops.dispatch, if_pos hbus, of_append, h.published hbus, of_singleton, if_neg hc,
          List.append_nil]
      · simp only [ReadLoops.dispatch, ho]
        exact h.handed hon
      · simp only [ReadLoops.dispatch, ho]
        exact h.single
  case handOver conn x hx =>
    have hxc : x.fst = conn := by simpa using List.find?_some hx
    by_cases hc : conn = c
    case pos =>
      subst hc
      have hn : of conn (s.handing.filter (·.fst ≠ conn)) = [] := of_filter_self _
      refine ⟨ps, h.frames, h.published, fun hon => ?_, by rw [hn]; exact Nat.zero_le _⟩
      have hone : of conn s.handing = [x.snd] := by
        have hm : x.snd ∈ of conn s.handing :=
          List.mem_map_of_mem (List.mem_filter.mpr ⟨List.mem_of_find?_eq_some hx, by simpa using hxc⟩)
        exact eq_singleton_of_mem h.single hm
      rw [if_pos hon, of_append, hn, of_singleton, if_pos hxc, List.append_nil, ← hone]
      exact h.handed hon
    case neg =>
      have hn := of_filter_ne (Ne.symm hc) s.handing
      refine ⟨ps, h.frames, h.published, fun hon => ?_, ?_⟩
      · rw [if_pos hon, of_append, hn, of_singleton, if_neg (hxc ▸ hc), List.append_nil]
        exact h.handed hon
      · simp only [hn]
        exact h.single

theorem dispatched {maxConnections : Nat} {streams : Connection → StreamReader}
    (h : (machine P hooks maxConnections streams).Reachable s) (c : Connection) :
    ∃ ps, Dispatched P hooks (streams c).bytes c s ps := by
  induction h
  case init hi =>
    cases hi
    exact ⟨[], .nil .., fun _ => rfl, fun _ => rfl, Nat.zero_le _⟩
  case step hs hd =>
    obtain ⟨ps, hd⟩ := hd
    exact hd.effect (step_effect hs)

-- Only the end of its own loop takes a connection out of the running ones.

theorem running_of_other {manager : ManagerState} {e : ManagerEvent} (hne : ∀ conn, e ≠ .loopEnds conn)
    (h : s.toManagerState.step e = some manager) (hc : c ∈ s.running) : c ∈ manager.running := by
  cases e <;> simp only [ManagerState.step] at h
  case loopEnds conn => exact absurd rfl (hne conn)
  case incoming addrKey =>
    cases h
    split
    · exact hc
    · exact List.mem_cons_of_mem _ hc
  case connectTo addrKey =>
    cases h
    split <;> exact hc
  case opened addrKey =>
    split at h <;> cases h
    exact List.mem_cons_of_mem _ hc
  case send addrKey =>
    cases h
    split <;> exact hc
  case notOpened | drained | drainFails =>
    split at h <;> cases h
    exact hc

-- All that the connection has received in valid frames has been passed on, and it has been cleaned up.
structure Ended (P : Primitives) (hooks : Hooks) (stream : Bytes) (c : Connection) (s : ReadLoops) :
    Prop where
  published : hooks.eventBus → ∀ ps, ValidPrefix P stream ps ↔ of c s.published = ps
  handed    : hooks.onMessage → ∀ ps, ValidPrefix P stream ps ↔ of c s.handed = ps
  removed   : c ∉ s.connections.rows
  closed    : c ∈ s.closed

theorem Dispatched.ended (h : Dispatched P hooks stream c s ps) (he : Effect P hooks s e s')
    (hc : c ∈ s.running) (hn : c ∉ s'.running) : Ended P hooks stream c s' := by
  cases he
  case other hne hm => exact absurd (running_of_other hne hm hc) hn
  case dispatch => exact absurd hc hn
  case handOver => exact absurd hc hn
  case finish conn hr hi hstuck =>
    have hcc : c = conn := by
      by_contra hne
      exact hn (List.mem_filter.mpr ⟨hc, by simpa using hne⟩)
    subst hcc
    have hv : ValidPrefix P stream ps := ⟨_, h.frames, hstuck⟩
    have hiff (ps' : List Packet) : ValidPrefix P stream ps' ↔ ps = ps' :=
      ⟨hv.unique, fun he => he ▸ hv⟩
    refine ⟨fun hbus ps' => ?_, fun hon ps' => ?_, fun hm => ?_, List.mem_cons_self⟩
    · rw [hiff, h.published hbus]
    · have := h.handed hon
      rw [of_eq_nil hi, List.append_nil] at this
      rw [hiff, this]
    · simp [Table.erase] at hm

-- A loop that is left alone comes to its end.

section

variable {maxConnections : Nat} {streams : Connection → StreamReader}

-- By its own steps
def Ends (P : Primitives) (hooks : Hooks) (maxConnections : Nat) (streams : Connection → StreamReader)
    (c : Connection) (s : ReadLoops) : Prop :=
  ∃ es s', (∀ e ∈ es, e = .read c ∨ e = .handOver c) ∧
    (machine P hooks maxConnections streams).exec (fun _ _ => True) s es = some s' ∧ c ∉ s'.running

theorem Ends.step (h : Ends P hooks maxConnections streams c s') (he : e = .read c ∨ e = .handOver c)
    (hs : s.step P hooks e = some s') : Ends P hooks maxConnections streams c s := by
  obtain ⟨es, s'', hes, hx, hc⟩ := h
  exact ⟨e :: es, s'', List.forall_mem_cons.mpr ⟨he, hes⟩,
    (Machine.exec_cons (M := machine P hooks maxConnections streams) es trivial hs).trans hx, hc⟩

theorem length_of_pos {log : List (Connection × Packet)} {x : Connection × Packet}
    (h : log.find? (·.fst = c) = some x) : 0 < (of c log).length := by
  have hx : x ∈ log.filter (·.fst = c) :=
    List.mem_filter.mpr ⟨List.mem_of_find?_eq_some h, by simpa using List.find?_some h⟩
  rw [of, List.length_map]
  exact List.length_pos_of_mem hx

theorem ends_of_running (hc : c ∈ s.running) : Ends P hooks maxConnections streams c s := by
  -- Each step takes a message from those to be handed over, or a frame from the stream.
  induction hn : 2 * (s.readers c).bytes.length + (of c s.handing).length using
    Nat.strong_induction_on generalizing s
  case h n hi =>
    cases hx : s.handing.find? (·.fst = c)
    case some x =>
      refine (hi _ ?_ ?_ rfl).step (.inr rfl) (Option.map_eq_some_iff.mpr ⟨x, hx, rfl⟩)
      · have := length_of_pos hx
        simp only [of_filter_self, List.length_nil]
        omega
      · exact hc
    case none =>
      have hidle : ∀ x ∈ s.handing, x.fst ≠ c := by simpa using hx
      cases hr : (nextPacket StreamReader.readExactly P).run (s.readers c)
      case error e r =>
        have hs : s.step P hooks (.read c) = s.finish c := by
          simp only [ReadLoops.step, if_pos (And.intro hc hidle), hr]
        rw [finish_eq hc] at hs
        exact ⟨[.read c], _, by simp, Machine.exec_cons [] trivial hs, by simp⟩
      case ok p r =>
        obtain ⟨f, hf, hb⟩ := nextPacket_reader_ok hr
        have hs : s.step P hooks (.read c) = some (s.dispatch hooks c p r) := by
          simp only [ReadLoops.step, if_pos (And.intro hc hidle), hr]
        refine (hi _ ?_ ?_ rfl).step (.inl rfl) hs
        · have := hf.length_pos
          have hl := congrArg List.length hb
          rw [List.length_append] at hl
          simp only [ReadLoops.dispatch, Function.update_self]
          rw [← List.singleton_append, of_append, of_eq_nil hidle, of_singleton, if_pos rfl]
          simp only [List.length_append, List.length_cons, List.length_nil]
          omega
        · exact hc

end

end ReadLoops

theorem read_loop_dispatches (P : Primitives) (hooks : Hooks) (maxConnections : Nat)
    (streams : Connection → StreamReader) (s : ReadLoops)
    (h : (ReadLoops.machine P hooks maxConnections streams).Reachable s) (c : Connection) :
    (∃ ps, ReadLoops.Dispatched P hooks (streams c).bytes c s ps) ∧
    (c ∈ s.running → ReadLoops.Ends P hooks maxConnections streams c s) ∧
    ∀ e s', s.step P hooks e = some s' → c ∈ s.running → c ∉ s'.running →
      ReadLoops.Ended P hooks (streams c).bytes c s' := by
  obtain ⟨ps, hd⟩ := ReadLoops.dispatched h c
  refine ⟨⟨ps, hd⟩, ReadLoops.ends_of_running, ?_⟩
  intro e s' hs hc hn
  exact hd.ended (ReadLoops.step_effect hs) hc hn

namespace ReadLoops

-- A chunk in two segments, and the beginning of another frame

def chunkFrame : Bytes :=
  [0x80, 0, 0, 28] ++ List.replicate 28 0

def chunkStream : StreamReader :=
  ⟨[], [chunkFrame.take 10, chunkFrame.drop 10 ++ [0x80, 0]]⟩

def chunkConnection : Connection :=
  ⟨0, Str.ofString "192.168.0.7:5000"⟩

-- The loop is about to end, with one message handed over.
def chunkRead (s : ReadLoops) : Bool :=
  chunkConnection ∈ s.running ∧ (s.step .transparent ⟨true, true⟩ (.read chunkConnection)).any fun s' =>
    chunkConnection ∉ s'.running ∧ (of chunkConnection s'.handed).length = 1

end ReadLoops

open ReadLoops in
theorem read_loop_dispatches_chunk :
    ∃ s s', (machine .transparent ⟨true, true⟩ 64 fun _ => chunkStream).Reachable s ∧
      s.step .transparent ⟨true, true⟩ (.read chunkConnection) = some s' ∧
      Ended .transparent ⟨true, true⟩ chunkStream.bytes chunkConnection s' ∧
      (of chunkConnection s'.handed).length = 1 := by
  have h₀ : (machine .transparent ⟨true, true⟩ 64 fun _ => chunkStream).Reachable _ := .init rfl
  obtain ⟨s, hs, hp⟩ := h₀.exec_any (p := chunkRead)
    [.other (.incoming chunkConnection.addrKey), .read chunkConnection, .handOver chunkConnection]
    (by decide +kernel)
  obtain ⟨hc, hp⟩ := of_decide_eq_true hp
  obtain ⟨s', hs', hp⟩ := (Option.any_eq_true ..).mp hp
  obtain ⟨hn, hl⟩ := of_decide_eq_true hp
  exact ⟨s, s', hs, hs',
    (read_loop_dispatches .transparent _ 64 _ s hs chunkConnection).right.right _ s' hs' hc hn, hl⟩
