import TelemetryHub.Proofs.Command.Cutting
import TelemetryHub.Proofs.Server.Texts

/-!
# Commands that are too long for one read

A text that a client sends at once is read in pieces of `messageLimit` bytes (`chunks`), and each piece is
handled as a message of its own. If the text is a command that does not fit into one piece, the first piece
and the last one are malformed (`long_command_refused`). The pieces between them can be anything, a command
too (`long_command_carried_out`).
-/

namespace TelemetryHub

open Json (Bracketed)
open Text (encode decodeLossy stripTerminator)

/-! ## Pieces of a text -/

/-- Bytes in pieces that are read one by one. -/
def chunks (bytes : List UInt8) : List (List UInt8) :=
  if _nothing : bytes = [] then [] else bytes.take messageLimit :: chunks (bytes.drop messageLimit)
termination_by bytes.length
decreasing_by
  rw [List.length_drop]
  exact Nat.sub_lt (List.length_pos_of_ne_nil _nothing) (by decide)

theorem chunks_nil : chunks [] = [] := by
  rw [chunks, dif_pos rfl]

theorem chunks_of_ne_nil {bytes : List UInt8} (nonempty : bytes ≠ []) :
    chunks bytes = bytes.take messageLimit :: chunks (bytes.drop messageLimit) := by
  rw [chunks, dif_neg nonempty]

theorem chunks_of_short {bytes : List UInt8} (nonempty : bytes ≠ []) (short : bytes.length ≤ messageLimit) :
    chunks bytes = [bytes] := by
  rw [chunks_of_ne_nil nonempty, List.take_of_length_le short, List.drop_of_length_le short, chunks_nil]

namespace Server

/-- When nothing arrives from a peer, it is not read or the next piece is read from it. -/
theorem unread_quiet {server : Server} {peer : Nat} {event : Event}
    (quiet : server.arriving peer event = []) :
    server.piece? peer event = none ∧ (server.happen event).unread peer = server.unread peer ∨
    server.unread peer ≠ [] ∧ server.piece? peer event = some ((server.unread peer).take messageLimit) ∧
      (server.happen event).unread peer = (server.unread peer).drop messageLimit := by
  have hears := hears_happen server peer event
  unfold unread piece?
  generalize server.input? peer = before, (server.happen event).input? peer = after at hears ⊢
  cases hears with
  | nothing _ left | comes _ left =>
    rw [left]
    exact .inl ⟨rfl, rfl⟩
  | @arrives inbound _ left =>
    rw [left, quiet]
    exact .inl ⟨rfl, List.append_nil _⟩
  | turns queue _ _ left =>
    rw [left]
    exact .inl ⟨rfl, queue⟩
  | @reads inbound _ reading =>
    rw [reading]
    exact inbound.read_cases messageLimit

/-- The pieces that are read from a peer from which nothing else arrives are those of what it has sent. -/
theorem pieces_prefix {server : Server} {peer : Nat} {events : List Event}
    (quiet : server.stream peer events = []) : server.pieces peer events <+: chunks (server.unread peer) := by
  induction events generalizing server with
  | nil => exact List.nil_prefix
  | cons event events ih =>
    obtain ⟨here, later⟩ := List.append_eq_nil_iff.mp quiet
    have following := ih later
    unfold pieces
    rcases unread_quiet here with ⟨nothing, same⟩ | ⟨nonempty, piece, left⟩
    · rw [nothing, ← same]
      exact following
    · rw [piece, chunks_of_ne_nil nonempty, ← left]
      exact (List.prefix_cons_inj _).mpr following

end Server

/-! ## The parts of a command -/

/-- The text is no message. -/
def Malformed (text : String) : Prop := ∃ mistake, Command.parse text = .error (.malformed mistake)

/-- A text that is read as a message is parsed as what this stands for. -/
theorem Command.parse_of_read {cs : List Char} {message : Message}
    (accepted : Message.read (Text.trim cs) = .ok message) :
    Command.parse (String.ofList cs) = message.toCommand := by
  unfold Command.parse
  rw [String.toList_ofList, accepted]

/-- The end of a line, or nothing. -/
def Terminator (bytes : List UInt8) : Prop := bytes = [] ∨ bytes = [0x0A] ∨ bytes = [0x0D, 0x0A]

/-- A part of the end of a line is taken away from a text behind which it stands, but for a CR alone. -/
theorem exists_stray {terminator : List UInt8} (ends : Terminator terminator) (n : Nat) :
    ∃ tail, (tail = [] ∨ tail = [0x0D]) ∧ Terminator (terminator.drop n) ∧
      ∀ {bytes : List UInt8}, bytes.getLast? = some 0x7D →
        stripTerminator (bytes ++ terminator.take n) = bytes ++ tail := by
  have alone : ∀ {bytes : List UInt8}, bytes.getLast? = some 0x7D →
      stripTerminator (bytes ++ []) = bytes ++ [] := by
    intro bytes last
    rw [List.append_nil]
    exact Text.stripTerminator_of_ne (by rw [last]; decide)
  rcases ends with rfl | rfl | rfl
  · exact ⟨[], .inl rfl, by simp [Terminator], fun last => by simpa using alone last⟩
  · rcases n with _ | n
    · exact ⟨[], .inl rfl, by simp [Terminator], alone⟩
    · refine ⟨[], .inl rfl, by simp [Terminator], fun {bytes} last => ?_⟩
      rw [List.append_nil]
      simpa using Text.stripTerminator_lf bytes (by rw [last]; decide)
  · rcases n with _ | _ | n
    · exact ⟨[], .inl rfl, by simp [Terminator], alone⟩
    · refine ⟨[0x0D], .inr rfl, by simp [Terminator], fun {bytes} last => ?_⟩
      exact Text.stripTerminator_of_ne (by simp)
    · refine ⟨[], .inl rfl, by simp [Terminator], fun {bytes} last => ?_⟩
      rw [List.append_nil]
      simpa using Text.stripTerminator_crlf bytes

namespace Server

theorem textsOf_terminator {terminator : List UInt8} (ends : Terminator terminator) :
    textsOf (chunks terminator) = [] := by
  rcases ends with rfl | rfl | rfl
  · rw [chunks_nil]
    rfl
  · rw [chunks_of_short (by decide) (by decide)]
    rfl
  · rw [chunks_of_short (by decide) (by decide)]
    rfl

theorem textsOf_cons {piece : List UInt8} (something : stripTerminator piece ≠ [])
    (pieces : List (List UInt8)) : textsOf (piece :: pieces) = said piece :: textsOf pieces := by
  have nonempty : (said piece).isEmpty = false := by
    have units := Text.scan_ne_nil something none
    simpa [said, decodeLossy, String.isEmpty_iff] using units
  simp [textsOf, nonempty]

end Server

section Parts

variable {cs : List Char} (bracketed : Bracketed cs)

include bracketed

theorem malformed_front {n : Nat} (more : n < (encode cs).length) :
    Malformed (String.ofList (decodeLossy ((encode cs).take n))) := by
  refine Command.parse_of_not_spells fun message => ?_
  rw [String.toList_ofList]
  refine Message.not_spells_front bracketed (Text.cut_encode cs n) (fun nothing => ?_) message
  exact absurd (List.drop_eq_nil_iff.mp nothing) (Nat.not_le.mpr more)

theorem malformed_back {n : Nat} (begun : 0 < n) {tail : List UInt8} (stray : tail = [] ∨ tail = [0x0D]) :
    Malformed (String.ofList (decodeLossy ((encode cs).drop n ++ tail))) := by
  refine Command.parse_of_not_spells fun message => ?_
  rw [String.toList_ofList]
  refine Message.not_spells_back bracketed (Text.cut_encode cs n) (fun nothing => ?_) stray message
  obtain ⟨c, others, rfl⟩ := List.exists_cons_of_ne_nil bracketed.ne_nil
  rcases List.take_eq_nil_iff.mp nothing with zero | empty
  · exact absurd zero (Nat.ne_of_gt begun)
  · rw [Text.encode_cons] at empty
    exact Text.utf8EncodeChar_ne_nil c (List.append_eq_nil_iff.mp empty).1

variable (closes : (encode cs).getLast? = some 0x7D) {terminator : List UInt8} (ends : Terminator terminator)

include closes ends

/-- Behind a cut there are pieces of whatever kind, and the last one that has a text is malformed. -/
theorem exists_last {n : Nat} (begun : 0 < n) (within : n < (encode cs).length) :
    ∃ middle last, Server.textsOf (chunks ((encode cs).drop n ++ terminator)) = middle ++ [last] ∧
      Malformed last ∧ ((encode cs).length ≤ n + messageLimit → middle = []) := by
  induction left : (encode cs).length - n using Nat.strongRecOn generalizing n with
  | ind left' ih =>
    have length : ((encode cs).drop n).length = (encode cs).length - n := List.length_drop
    have nonempty : (encode cs).drop n ≠ [] := by
      rw [← List.length_pos_iff, length]
      omega
    have closes' : ((encode cs).drop n).getLast? = some 0x7D := by
      rw [List.getLast?_drop, if_neg (Nat.not_le.mpr within), closes]
    rw [chunks_of_ne_nil (List.append_ne_nil_of_left_ne_nil nonempty _)]
    rcases Nat.lt_or_ge (n + messageLimit) (encode cs).length with further | final
    · rw [List.take_append_of_le_length (by omega), List.drop_append_of_le_length (by omega), List.drop_drop]
      have smaller : (encode cs).length - (n + messageLimit) < left' := by
        have : 0 < messageLimit := by decide
        omega
      obtain ⟨middle, last, texts, malformed, -⟩ :=
        ih _ smaller (Nat.add_pos_left begun _) further rfl
      refine ⟨Server.textsOf [((encode cs).drop n).take messageLimit] ++ middle, last, ?_, malformed,
        fun short => absurd short (Nat.not_le.mpr further)⟩
      rw [List.append_assoc, ← texts, ← Server.textsOf_append]
      rfl
    · obtain ⟨tail, stray, ends', strip⟩ := exists_stray ends (messageLimit - ((encode cs).drop n).length)
      have fits : ((encode cs).drop n).length ≤ messageLimit := by omega
      rw [List.take_append, List.drop_append, List.take_of_length_le fits, List.drop_of_length_le fits,
        List.nil_append]
      refine ⟨[], _, ?_, malformed_back bracketed begun stray, fun _ => rfl⟩
      have stripped := strip closes'
      rw [Server.textsOf_cons (by rw [stripped]; exact List.append_ne_nil_of_left_ne_nil nonempty _),
        Server.textsOf_terminator ends', said, stripped]
      rfl

omit closes ends in
/-- The first piece of a text that does not fit into one is malformed. -/
theorem malformed_first (long : messageLimit < (encode cs).length) :
    stripTerminator ((encode cs).take messageLimit) ≠ [] ∧
      Malformed (said ((encode cs).take messageLimit)) := by
  have length : ((encode cs).take messageLimit).length = messageLimit := List.length_take_of_le long.le
  obtain ⟨behind, parts, short⟩ := Text.exists_terminator ((encode cs).take messageLimit)
  unfold said
  generalize stripTerminator ((encode cs).take messageLimit) = front at parts ⊢
  have lengths : front.length + behind.length = messageLimit := by
    rw [← List.length_append, ← parts, length]
  have same : front = (encode cs).take front.length := by
    have whole := List.take_append_drop messageLimit (encode cs)
    rw [parts, List.append_assoc] at whole
    rw [← whole, List.take_left]
  constructor
  · rintro rfl
    have : 2 < messageLimit := by decide
    rw [List.length_nil] at lengths
    omega
  · rw [same]
    exact malformed_front bracketed (by omega)

/-- The first piece of a text that does not fit into one and the last one with a text are malformed, and
there is nothing between them if the text fits into two. -/
theorem exists_first_last (long : messageLimit < (encode cs).length) :
    ∃ first middle last, Server.textsOf (chunks (encode cs ++ terminator)) = first :: (middle ++ [last]) ∧
      Malformed first ∧ Malformed last ∧ ((encode cs).length ≤ 2 * messageLimit → middle = []) := by
  obtain ⟨something, malformed⟩ := malformed_first bracketed long
  obtain ⟨middle, last, texts, malformed', none⟩ :=
    exists_last bracketed closes ends (by decide : 0 < messageLimit) long
  have nonempty : encode cs ++ terminator ≠ [] := by
    refine List.append_ne_nil_of_left_ne_nil (fun nothing => ?_) _
    rw [nothing] at long
    cases long
  refine ⟨_, middle, last, ?_, malformed, malformed', fun short => none (by omega)⟩
  rw [chunks_of_ne_nil nonempty, List.take_append_of_le_length long.le, List.drop_append_of_le_length long.le,
    Server.textsOf_cons something, texts]

end Parts

/-! ## Turns -/

namespace Server

/-- A text that is no message is logged and reported as such, and nothing else happens. -/
theorem handleText_malformed {text : String} (malformed : Malformed text) :
    ∃ mistake, ∀ (server : Server) (source : String), server.handleText text source =
      (.error (.notACommand (.malformed mistake)), server.appendLog (Json.ofMessage text) source) := by
  obtain ⟨mistake, refused⟩ := malformed
  refine ⟨mistake, fun server source => ?_⟩
  unfold handleText
  rw [refused]

theorem session_appendLog (server : Server) (body : Json) (source : String) :
    (server.appendLog body source).session = server.session := by
  unfold appendLog
  split <;> rfl

theorem kept_serve {server : Server} {peer : Nat}
    (malformed : ∀ text, server.said? peer = some (.raw text) → Malformed text) :
    (server.serve peer).gates = server.gates ∧ (server.serve peer).session = server.session := by
  cases told : server.said? peer with
  | none =>
    obtain ⟨gates, session, -⟩ := serve_of_silent told
    exact ⟨gates, session⟩
  | some incoming =>
    obtain ⟨c, text, found, received, something, rfl⟩ := exists_received_of_said told
    obtain ⟨mistake, handled⟩ := handleText_malformed (malformed text told)
    rw [serve_eq_handle found received something, show handle _ (.raw text) _ = _ from handled _ _]
    exact ⟨gates_appendLog _ _ _, session_appendLog _ _ _⟩

/-- A client that tells nothing but what is malformed leaves the gates and the session alone. -/
theorem kept_in_turn {server : Server} {peer : Nat} {ready : List Nat} {readable : Bool}
    (point : server.loop = .serving (peer :: ready) readable)
    (malformed : ∀ text ∈ textsOf (server.piece? peer .turn).toList, Malformed text) :
    (server.happen .turn).gates = server.gates ∧ (server.happen .turn).session = server.session := by
  have told : ∀ text, server.said? peer = some (.raw text) → Malformed text :=
    fun text told => malformed text (mem_textsOf_of_said point told)
  have kept : ∀ {behind : Server}, behind.said? peer = server.said? peer →
      (behind.serve peer).gates = behind.gates ∧ (behind.serve peer).session = behind.session :=
    fun same => kept_serve (by rw [same]; exact told)
  rw [happen_turn_of_serving point]
  exact kept rfl

/-! ## Long commands -/

theorem piece_mem_pieces {server : Server} {peer : Nat} {piece : List UInt8} (earlier later : List Event)
    {event : Event} (taken : piece ∈ ((server.happenAll earlier).piece? peer event).toList) :
    piece ∈ server.pieces peer (earlier ++ event :: later) := by
  induction earlier generalizing server with
  | nil => exact List.mem_append_left _ taken
  | cons first earlier ih => exact List.mem_append_right _ (ih taken)

theorem textsOf_subset {pieces pieces' : List (List UInt8)} (subset : pieces ⊆ pieces') :
    textsOf pieces ⊆ textsOf pieces' := fun _ isIn =>
  have ⟨isText, nonempty⟩ := List.mem_filter.mp isIn
  List.mem_filter.mpr ⟨List.map_subset said subset isText, nonempty⟩

/-- What has just arrived from a peer is all that there is to be read, or nothing is. -/
theorem unread_arrives {server : Server} {peer : Nat} (nothing : server.unread peer = []) (bytes : List UInt8) :
    (server.happen (.arrives peer bytes)).unread peer = bytes ∨
      (server.happen (.arrives peer bytes)).unread peer = [] := by
  have arrived : server.unread peer ++ server.arriving peer (.arrives peer bytes) =
      (server.happen (.arrives peer bytes)).unread peer := unread_happen server peer (.arrives peer bytes)
  rw [← arrived, nothing, List.nil_append]
  unfold arriving
  dsimp only
  split
  · exact .inl rfl
  · exact .inr rfl

/-- **Long commands**: a text in braces that is a command and does not fit into one piece is read in pieces
of which the first one and the last one with a text are malformed, with one end of a line behind it or none.
If it fits into two pieces, there are no others. The texts of the pieces are what is handled under the name of
the client. Every one of them is logged and reported as malformed, but for those of the pieces in between, and
the turns in which none of these is read leave the gates and the session as they are. -/
theorem long_command_refused (capacity : Nat) (log : Option Log) (source : Option Source)
    (sampler : Option Sampler) (deadline : Deadline) (now : String)
    (foreign : ∀ given, source = some given → ∀ slot, given.label ≠ clientName slot)
    (before during : List Event) (peer : Nat) (cs : List Char) (command : Command) (terminator : List UInt8)
    (accepted : Command.parse (String.ofList cs) = .ok command) (opens : cs.head? = some '\x7b')
    (closes : cs.getLast? = some '\x7d') (long : 255 < (encode cs).length)
    (ends : Terminator terminator) :
    let server := (new capacity log source sampler deadline now).happenAll before
    let sent := server.happen (.arrives peer (encode cs ++ terminator))
    server.unread peer = [] → sent.stream peer during = [] →
    ∃ first middle last,
      textsOf (chunks (encode cs ++ terminator)) = first :: (middle ++ [last]) ∧
      Malformed first ∧ Malformed last ∧
      ((encode cs).length ≤ 510 → middle = []) ∧
      sent.pieces peer during <+: chunks (encode cs ++ terminator) ∧
      sent.texts peer during = textsOf (sent.pieces peer during) ∧
      (∀ earlier event later, during = earlier ++ event :: later → (sent.happenAll earlier).Heeds peer event) ∧
      (∀ handled ∈ sent.texts peer during, handled ∉ middle → ∃ mistake, ∀ (server : Server) (origin : String),
        server.handleText handled origin =
          (.error (.notACommand (.malformed mistake)), server.appendLog (Json.ofMessage handled) origin)) ∧
      ∀ earlier later ready readable, during = earlier ++ .turn :: later →
        (sent.happenAll earlier).loop = .serving (peer :: ready) readable →
        (∀ handled ∈ textsOf ((sent.happenAll earlier).piece? peer .turn).toList, handled ∉ middle) →
          ((sent.happenAll earlier).happen .turn).gates = (sent.happenAll earlier).gates ∧
          ((sent.happenAll earlier).happen .turn).session = (sent.happenAll earlier).session := by
  intro server sent nothing quiet
  have bracketed : Bracketed cs := by
    obtain ⟨message, spells, -⟩ := (Command.parse_grammar (String.ofList cs)).1.mp ⟨command, accepted⟩
    rw [String.toList_ofList, Text.trim_eq_self opens (by decide) closes (by decide)] at spells
    exact spells.bracketed
  have closes' : (encode cs).getLast? = some 0x7D := by
    obtain ⟨front, same⟩ := List.getLast?_eq_some_iff.mp closes
    rw [same, Text.encode_append]
    have brace : encode ['\x7d'] = [0x7D] := rfl
    rw [brace, List.getLast?_concat]
  obtain ⟨first, middle, last, texts, malformed, malformed', few⟩ :=
    exists_first_last bracketed closes' ends long
  have pieces : sent.pieces peer during <+: chunks (encode cs ++ terminator) := by
    have taken := pieces_prefix quiet
    rcases unread_arrives nothing (encode cs ++ terminator) with all | none
    · rwa [all] at taken
    · rw [none, chunks_nil, List.prefix_nil] at taken
      rw [taken]
      exact List.nil_prefix
  have refused : ∀ handled ∈ textsOf (sent.pieces peer during), handled ∉ middle → Malformed handled := by
    intro handled isIn other
    have among := textsOf_subset pieces.subset isIn
    rw [texts] at among
    rcases List.mem_cons.mp among with rfl | among
    · exact malformed
    rcases List.mem_append.mp among with within | final
    · exact absurd within other
    · rw [List.mem_singleton.mp final]
      exact malformed'
  have begins : (new capacity log source sampler deadline now).Housed capacity :=
    housed_new capacity log source sampler deadline now
  have housed : sent.Housed capacity := (begins.happenAll before).operate _
  have apart : (new capacity log source sampler deadline now).NamedApart := namedApart_new foreign
  have apart' : sent.NamedApart := (apart.happenAll before).happen _
  have same : sent.texts peer during = textsOf (sent.pieces peer during) := housed.texts_eq apart' peer during
  refine ⟨first, middle, last, texts, malformed, malformed', few, pieces, same, ?_, ?_, ?_⟩
  · rintro earlier event later rfl
    exact (housed.happenAll earlier).heeds (apart'.happenAll earlier) peer event
  · intro handled isIn other
    exact handleText_malformed (refused handled (same ▸ isIn) other)
  · rintro earlier later ready readable rfl point others
    refine kept_in_turn point fun handled isIn => refused handled ?_ (others handled isIn)
    exact textsOf_subset (fun piece taken => piece_mem_pieces earlier later taken) isIn

/-- A command with a note of so many characters. -/
def noted (length : Nat) : List Char :=
  "\x7b\"functionality\":\"perf\",\"command\":\"stop\",\"note\":\"".toList ++ List.replicate length 'x' ++
    "\"\x7d".toList

/-- A command with a long note is read in two pieces, and both are refused. -/
theorem long_command_refused_note :
    let before := [.connects .all, .does .start trivial] ++ List.replicate 4 .turn
    let during := List.replicate 10 Event.turn
    let server := (new 1 none none none ⟨⟨0⟩, ⟨0⟩⟩ "").happenAll before
    let sent := server.happen (.arrives 0 (encode (noted 210) ++ [0x0A]))
    (Command.parse (String.ofList (noted 210)) = .ok ⟨"perf", .sessionStop, none⟩ ∧
      (noted 210).head? = some '\x7b' ∧ (noted 210).getLast? = some '\x7d' ∧
      255 < (encode (noted 210)).length ∧ Terminator [0x0A] ∧
      server.unread 0 = [] ∧ sent.stream 0 during = []) ∧
    (sent.pieces 0 during).length = 2 ∧
    ∀ handled ∈ sent.texts 0 during, ∃ mistake, ∀ (server : Server) (origin : String),
      server.handleText handled origin =
        (.error (.notACommand (.malformed mistake)), server.appendLog (Json.ofMessage handled) origin) := by
  intro before during server sent
  have foreign : ∀ given : Source, none = some given → ∀ slot, given.label ≠ clientName slot :=
    fun _ impossible => nomatch impossible
  have read : Message.read (Text.trim (noted 210)) = .ok ⟨"perf", "stop", none, none⟩ := by decide +kernel
  have accepted : Command.parse (String.ofList (noted 210)) = .ok ⟨"perf", .sessionStop, none⟩ :=
    (Command.parse_of_read read).trans (by decide +kernel)
  have opens : (noted 210).head? = some '\x7b' := by decide +kernel
  have closes : (noted 210).getLast? = some '\x7d' := by decide +kernel
  have long : 255 < (encode (noted 210)).length := by decide +kernel
  have ends : Terminator [0x0A] := .inr (.inl rfl)
  have nothing : server.unread 0 = [] := List.isEmpty_iff.mp (by decide +kernel)
  have quiet : sent.stream 0 during = [] := by simp [during, stream, arriving, List.replicate, Event.turn]
  obtain ⟨first, middle, last, -, -, -, few, -, -, -, refused, -⟩ :=
    long_command_refused 1 none none none ⟨⟨0⟩, ⟨0⟩⟩ "" foreign before during 0 (noted 210)
      ⟨"perf", .sessionStop, none⟩ [0x0A] accepted opens closes long ends nothing quiet
  have none : middle = [] := few (by decide +kernel)
  have two : (sent.pieces 0 during).length = 2 := by decide +kernel
  refine ⟨⟨accepted, opens, closes, long, ends, nothing, quiet⟩, two, fun handled isIn => ?_⟩
  exact refused handled isIn (by rw [none]; exact List.not_mem_nil)

/-- A command with a member that is passed over and is, as the second piece, a command of its own. -/
def carrying : List Char :=
  "\x7b\"functionality\":\"monitorEvents\",\"command\":\"start\",\"x\":".toList ++ List.replicate 200 ' ' ++
    "\x7b\"functionality\":\"exceptionEvents\",\"command\":\"stop\"".toList ++ List.replicate 203 ' ' ++
    "\x7d\x7d".toList

/-- **Carried out**: a piece in the middle of a long command can be a command of its own, which the server
carries out. -/
theorem long_command_carried_out :
    let server := (new 1 none none none ⟨⟨0⟩, ⟨0⟩⟩ "").happenAll
      ([.connects .all, .does .start trivial] ++ List.replicate 4 .turn)
    let sent := server.happen (.arrives 0 (encode carrying))
    (Command.parse (String.ofList carrying) = .ok ⟨"monitorEvents", .start, none⟩ ∧
      carrying.head? = some '\x7b' ∧ carrying.getLast? = some '\x7d' ∧ 255 < (encode carrying).length) ∧
    (sent.happenAll (List.replicate 15 .turn)).gates ≠ server.gates := by
  intro server sent
  have read : Message.read (Text.trim carrying) = .ok ⟨"monitorEvents", "start", none, none⟩ := by
    decide +kernel
  have accepted : Command.parse (String.ofList carrying) = .ok ⟨"monitorEvents", .start, none⟩ :=
    (Command.parse_of_read read).trans (by decide +kernel)
  have opens : carrying.head? = some '\x7b' := by decide +kernel
  have closes : carrying.getLast? = some '\x7d' := by decide +kernel
  have long : 255 < (encode carrying).length := by decide +kernel
  have told : (sent.happenAll (List.replicate 15 .turn)).gates ≠ server.gates := by decide +kernel
  exact ⟨⟨accepted, opens, closes, long⟩, told⟩

end Server
end TelemetryHub
