import TelemetryHub.Proofs.Json.OneLine
import TelemetryHub.Proofs.Json.Printing
import TelemetryHub.Proofs.Relay.Course
import TelemetryHub.Proofs.Text.Cutting

/-!
# The word that ends a client

A client ends with the word when what it has just read from the server ends with it. So the pieces that
are read decide and not the lines of the server (`ends_by_reads`). Where each read takes whole lines, the
last one of each piece counts (`GoesByLines`), and whole records never end a client. But a stream that has
the word anywhere can be cut so that the client ends with it, and any stream can be cut so that it does
not (`course_word`, `course_bytewise`): a line that is the word may be missed, and a record that is longer
than a read may end the client (`lines_do_not_decide`).
-/

namespace TelemetryHub

open Text (encode stripTerminator)

namespace Relay

/-! ## Pieces that end with the word -/

theorem isTerminal_iff {bytes : List UInt8} :
    isTerminal bytes = true ↔ sentinel <:+ stripTerminator bytes :=
  List.isSuffixOf_iff_suffix

/-- Bytes that end with the word itself, without the end of a line. -/
theorem isTerminal_sentinel (front : List UInt8) : isTerminal (front ++ sentinel) = true := by
  have last : (front ++ sentinel).getLast? ≠ some 0x0A := by simp [sentinel]
  rw [isTerminal_iff, Text.stripTerminator_of_ne last]
  exact List.suffix_append _ _

/-- Bytes that end with the word have it somewhere. -/
theorem infix_of_terminal {bytes : List UInt8} (terminal : isTerminal bytes = true) :
    sentinel <:+: bytes := by
  obtain ⟨terminator, parts, -⟩ := Text.exists_terminator bytes
  have front : stripTerminator bytes <+: bytes := ⟨terminator, parts.symm⟩
  exact (isTerminal_iff.mp terminal).isInfix.trans front.isInfix

/-- A single byte is not the word. -/
theorem not_terminal_singleton (byte : UInt8) : isTerminal [byte] = false := by
  rw [Bool.eq_false_iff]
  intro terminal
  exact absurd (infix_of_terminal terminal).length_le (by simp [sentinel])

/-! ## Lines -/

/-- A message with the end of its line. -/
def Line (message : List UInt8) : Prop := ∃ content, message = content ++ [0x0A] ∧ 0x0A ∉ content

/-- Whole lines in front of a line do not change what its end is. -/
theorem stripTerminator_append_line {earlier line : List UInt8}
    (whole : earlier = [] ∨ earlier.getLast? = some 0x0A) (isLine : Line line) :
    stripTerminator (earlier ++ line) = earlier ++ stripTerminator line := by
  obtain ⟨content, rfl, -⟩ := isLine
  by_cases cr : content.getLast? = some 0x0D
  · obtain ⟨front, rfl⟩ := List.getLast?_eq_some_iff.mp cr
    have onLine := Text.stripTerminator_crlf front
    have behind := Text.stripTerminator_crlf (earlier ++ front)
    simp_all
  · have other : (earlier ++ content).getLast? ≠ some 0x0D := by
      rw [List.getLast?_append]
      rcases whole with rfl | last
      · simpa using cr
      · cases found : content.getLast? with
        | none => simp [last]
        | some byte => simpa [found] using cr
    rw [← List.append_assoc, Text.stripTerminator_lf _ other, Text.stripTerminator_lf _ cr]

/-- Of whole lines only the last one counts. -/
theorem isTerminal_append_line {earlier line : List UInt8}
    (whole : earlier = [] ∨ earlier.getLast? = some 0x0A) (isLine : Line line) :
    isTerminal (earlier ++ line) = isTerminal line := by
  rw [Bool.eq_iff_iff, isTerminal_iff, isTerminal_iff, stripTerminator_append_line whole isLine]
  refine ⟨fun ⟨before, parts⟩ => ?_, fun ends => ends.trans (List.suffix_append _ _)⟩
  rcases List.append_eq_append_iff.mp parts with ⟨reaches, front, word⟩ | ⟨behind, -, word⟩
  · -- If the word began in front of the line, the end of the line before would be in it.
    rcases List.eq_nil_or_concat reaches with rfl | ⟨start, byte, rfl⟩
    · exact ⟨[], word⟩
    · rcases whole with rfl | last
      · simp at front
      · rw [front, List.concat_eq_append, ← List.append_assoc, List.getLast?_concat] at last
        cases last
        exact absurd (word ▸ by simp : (0x0A : UInt8) ∈ sentinel) (by decide)
  · exact ⟨behind, word.symm⟩

/-! ## Records -/

/-- The letter in the middle of the word is in no number. -/
theorem not_numeric_of_letter {c : Char} (letter : c.toNat = 0x6F) : ¬Numeric c := by
  rintro (digit | sign)
  · simp only [Char.isDigit, Bool.and_eq_true, decide_eq_true_eq] at digit
    have most : c.toNat ≤ 57 := UInt32.le_iff_toNat_le.mp digit.2
    omega
  · simp only [List.mem_cons, List.not_mem_nil, or_false] at sign
    rcases sign with rfl | rfl | rfl | rfl <;> exact absurd letter (by decide)

/-- **No record ends with the word.** -/
theorem isTerminal_payload (record : Json) : isTerminal (Server.payload record) = false := by
  have stripped : stripTerminator (Server.payload record) = encode record.printCompact := by
    refine Text.stripTerminator_lf _ fun last => ?_
    obtain ⟨c, found, same⟩ := Text.getLast?_of_encode last (by decide)
    exact absurd (same ▸ Json.visible_printCompact record c (List.mem_of_getLast? found)) (by decide)
  rw [Bool.eq_false_iff, ne_eq, isTerminal_iff, stripped]
  rintro ⟨front, word⟩
  have letter : 0x6F ∈ encode record.printCompact := by simp [← word, sentinel]
  have final : ∀ c, record.printCompact.getLast? = some c → c = 'e' := by
    intro c closes
    have last : (encode record.printCompact).getLast? = some 0x65 := by simp [← word, sentinel]
    obtain ⟨d, found, same⟩ := Text.getLast?_of_encode last (by decide)
    rw [closes] at found
    cases found
    exact Char.toNat_inj.mp same
  cases record with
  | null => exact absurd letter (by decide)
  | bool b => cases b <;> exact absurd letter (by decide)
  | num n =>
    obtain ⟨c, isIn, same⟩ := Text.exists_of_mem_encode letter (by decide)
    exact not_numeric_of_letter same (n.numeric_print c isIn)
  | str s =>
    refine absurd (final '"' ?_) (by decide)
    simp [Json.printCompact, Json.printString, List.getLast?_cons]
  | arr items =>
    refine absurd (final ']' ?_) (by decide)
    cases items <;> simp [Json.printCompact, Json.printCompactItems_eq, List.getLast?_cons]
  | obj members =>
    refine absurd (final '\x7d' ?_) (by decide)
    cases members <;> simp [Json.printCompact, Json.printCompactMembers_eq, List.getLast?_cons]

/-! ## Reads that keep to the lines -/

variable {relay : Relay}

/-- Lines in a row are told apart by their ends. -/
theorem Line.eq_of_append {line line' rest rest' : List UInt8} (isLine : Line line) (isLine' : Line line')
    (same : line ++ rest = line' ++ rest') : line = line' ∧ rest = rest' := by
  obtain ⟨content, rfl, open'⟩ := isLine
  obtain ⟨content', rfl, open''⟩ := isLine'
  simp only [List.append_assoc, List.singleton_append] at same
  have cut := congrArg (List.splitOn 0x0A) same
  rw [List.splitOn_append_cons_self_of_not_mem open', List.splitOn_append_cons_self_of_not_mem open''] at cut
  obtain rfl := (List.cons.inj cut).1
  exact ⟨rfl, (List.cons.inj (List.append_cancel_left same)).2⟩

theorem prefix_of_flatten {lines lines' : List (List UInt8)} (isLine : ∀ line ∈ lines, Line line)
    (isLine' : ∀ line ∈ lines', Line line) (front : lines.flatten <+: lines'.flatten) :
    lines <+: lines' := by
  induction lines generalizing lines' with
  | nil => exact List.nil_prefix
  | cons line lines ih =>
    obtain ⟨rest, same⟩ := front
    cases lines' with
    | nil =>
      obtain ⟨content, rfl, -⟩ := isLine line List.mem_cons_self
      simp at same
    | cons line' lines' =>
      rw [List.flatten_cons, List.append_assoc, List.flatten_cons] at same
      have first := isLine line List.mem_cons_self
      obtain ⟨rfl, others⟩ := first.eq_of_append (isLine' line' List.mem_cons_self) same
      have behind := ih (fun line isIn => isLine line (List.mem_cons_of_mem _ isIn))
        (fun line isIn => isLine' line (List.mem_cons_of_mem _ isIn)) ⟨rest, others⟩
      exact List.cons_prefix_cons.mpr ⟨rfl, behind⟩

/-! ## Any cut of a stream -/

/-- A cut of a stream as a course: each piece arrives and is read, and then the server hangs up. -/
def delivery : List (List UInt8) → List Event
  | [] => [.hungUp, .turn]
  | piece :: pieces => .served piece :: .turn :: delivery pieces

theorem stream_delivery (pieces : List (List UInt8)) : stream (delivery pieces) = pieces.flatten := by
  induction pieces with
  | nil => rfl
  | cons piece pieces ih => rw [delivery, stream, stream, ih, List.flatten_cons]

/-- Of bytes that arrive by themselves as many are read as one read takes. -/
theorem exists_served {bytes : List UInt8} (unfailing : relay.Unfailing) (fresh : relay.fromServer = .opened)
    (nonempty : bytes ≠ []) :
    ∃ after : Relay, after.Unfailing ∧ after.fromServer = Inbound.opened.arrive (bytes.drop readLimit) ∧
      ∀ later, (relay.course (.served bytes :: .turn :: later)).1 =
        if isTerminal (bytes.take readLimit) then some .done else (after.course later).1 := by
  obtain ⟨served, happened, kept, arrived⟩ : ∃ served, relay.happen (.served bytes) = (none, served) ∧
      served.Unfailing ∧ served.fromServer = Inbound.opened.arrive bytes :=
    ⟨_, rfl, unfailing_happen unfailing (.served bytes), by simp [fresh, Inbound.gets, Inbound.opened]⟩
  have read : served.fromServer.read readLimit =
      (.bytes (bytes.take readLimit), Inbound.opened.arrive (bytes.drop readLimit)) := by
    rw [arrived]
    cases bytes with
    | nil => exact absurd rfl nonempty
    | cons byte bytes => rfl
  obtain ⟨ends, left⟩ := (turned kept).of_bytes read
  have parts : served.happen .turn = (served.turn.1, served.turn.2) := rfl
  refine ⟨served.turn.2, unfailing_happen kept .turn, left, fun later => ?_⟩
  rw [course, happened]
  dsimp only
  rw [course, parts, ends, Reading.reason?]
  cases isTerminal (bytes.take readLimit) <;> rfl

/-- **Every cut of a stream can be what is read**, and its pieces decide on the end. -/
theorem course_delivery {pieces : List (List UInt8)} (unfailing : relay.Unfailing)
    (fresh : relay.fromServer = .opened)
    (proper : ∀ piece ∈ pieces, piece ≠ [] ∧ piece.length ≤ readLimit) :
    (relay.course (delivery pieces)).1 =
      if pieces.any isTerminal then some .done else some .serverClosed := by
  induction pieces generalizing relay with
  | nil =>
    simp [delivery, course, happen, turn, receive, fresh, Inbound.close, Inbound.opened, Inbound.isReady,
      Inbound.read]
  | cons piece pieces ih =>
    obtain ⟨nonempty, short⟩ := proper piece List.mem_cons_self
    obtain ⟨after, kept, left, goes⟩ := exists_served unfailing fresh nonempty
    rw [List.drop_of_length_le short] at left
    have others := ih kept left fun piece isIn => proper piece (List.mem_cons_of_mem _ isIn)
    rw [delivery, goes, List.take_of_length_le short, others, List.any_cons]
    cases isTerminal piece <;> rfl

/-! ## What the end depends on -/

/-- How a client goes by its reads, in a course from its start. -/
structure GoesByReads (relay : Relay) (events : List Event) : Prop where
  /-- The reads take the stream from the server apart, as far as they have come. -/
  pieces : (relay.pieces events).flatten <+: stream events
  proper : ∀ piece ∈ relay.pieces events, piece ≠ [] ∧ piece.length ≤ readLimit
  printed : (relay.course events).2.output.sent = relay.output.sent ++ (relay.pieces events).flatten
  done : (relay.course events).1 = some .done ↔ ∃ piece ∈ relay.pieces events, isTerminal piece = true
  /-- The only other end is behind the whole stream. -/
  closed : ∀ reason, (relay.course events).1 = some reason → reason ≠ .done →
    reason = .serverClosed ∧ (relay.pieces events).flatten = stream events
  /-- With enough turns after the server has hung up, there is an end. -/
  ends : ∀ turns, (stream events).length + 2 ≤ turns →
    ∃ reason, (relay.course (events ++ .hungUp :: List.replicate turns .turn)).1 = some reason

/-- How a client goes by the lines of the server, if its reads keep to them. -/
structure GoesByLines (relay : Relay) (events : List Event) : Prop where
  /-- Of lines that are read at once the last one counts. -/
  last : ∀ groups : List (List (List UInt8)), relay.pieces events = groups.map List.flatten →
    (∀ group ∈ groups, ∀ line ∈ group, Line line) →
    ((relay.course events).1 = some .done ↔
      ∃ group ∈ groups, ∃ line ∈ group.getLast?, isTerminal line = true)
  /-- If each line is read by itself, the client ends with the word if and only if a line does. -/
  apiece : ∀ lines : List (List UInt8), stream events = lines.flatten → (∀ line ∈ lines, Line line) →
    (∀ piece ∈ relay.pieces events, Line piece) → ∀ reason, (relay.course events).1 = some reason →
    (reason = .done ↔ ∃ line ∈ lines, isTerminal line = true)
  /-- Whole records do not end the client. -/
  records : ∀ groups : List (List Json), relay.pieces events = groups.map (·.flatMap Server.payload) →
    (relay.course events).1 ≠ some .done

theorem goesByReads (unfailing : relay.Unfailing) (fresh : relay.fromServer = .opened) (events : List Event) :
    GoesByReads relay events := by
  have ran := ran unfailing events
  have coming : relay.fromServer.queue ++ relay.coming events = stream events := by
    simp [coming, fresh, Inbound.opened]
  obtain ⟨behind, parts, -⟩ := ran.unread
  rw [coming] at parts
  refine
    { pieces := ⟨_, parts.symm⟩
      proper := fun _ => length_pieces
      printed := ran.sent
      done := ran.done_iff
      closed := fun reason ended other => ?_
      ends := fun turns enough => ?_ }
  · rw [ended] at ran
    obtain ⟨rfl, -⟩ := ran.closed other
    exact ⟨rfl, ran.flatten_of_closed.trans coming⟩
  · have kept := unfailing_course unfailing events
    rw [course_append]
    generalize relay.course events = result at parts kept
    obtain ⟨reason?, after⟩ := result
    cases reason? with
    | some reason => exact ⟨reason, rfl⟩
    | none =>
      have fewer := congrArg List.length parts
      simp only [List.length_append] at fewer
      exact exists_end_of_hungUp kept (by omega)

theorem line_payload (record : Json) : Line (Server.payload record) :=
  ⟨_, rfl, Json.lineEnd_notIn_compact record⟩

/-- Of whole lines in a row the last one counts. -/
theorem isTerminal_flatten {group : List (List UInt8)} (isLine : ∀ line ∈ group, Line line) :
    isTerminal group.flatten = true ↔ ∃ line ∈ group.getLast?, isTerminal line = true := by
  have whole : ∀ {group : List (List UInt8)}, (∀ line ∈ group, Line line) →
      group.flatten = [] ∨ group.flatten.getLast? = some 0x0A := by
    intro group isLine
    rcases List.eq_nil_or_concat group with rfl | ⟨front, line, rfl⟩
    · exact .inl rfl
    · obtain ⟨content, rfl, -⟩ := isLine line (by simp)
      exact .inr (by simp)
  rcases List.eq_nil_or_concat group with rfl | ⟨front, line, rfl⟩
  · simp [show isTerminal [] = false from rfl]
  · rw [List.concat_eq_append] at isLine ⊢
    obtain ⟨others, last⟩ := List.forall_mem_append.mp isLine
    rw [List.flatten_append, List.flatten_singleton,
      isTerminal_append_line (whole others) (last line List.mem_cons_self)]
    simp

theorem goesByLines (unfailing : relay.Unfailing) (fresh : relay.fromServer = .opened) (events : List Event) :
    GoesByLines relay events := by
  have reads := goesByReads unfailing fresh events
  have last : ∀ groups : List (List (List UInt8)), relay.pieces events = groups.map List.flatten →
      (∀ group ∈ groups, ∀ line ∈ group, Line line) →
      ((relay.course events).1 = some .done ↔
        ∃ group ∈ groups, ∃ line ∈ group.getLast?, isTerminal line = true) := by
    intro groups same isLine
    rw [reads.done, same]
    simp only [List.mem_map, exists_exists_and_eq_and]
    exact exists_congr fun group => and_congr_right fun isIn => isTerminal_flatten (isLine group isIn)
  refine
    { last
      apiece := fun lines whole isLine isLine' reason ended => ?_
      records := fun groups same done => ?_ }
  · have read : relay.pieces events <+: lines := prefix_of_flatten isLine' isLine (whole ▸ reads.pieces)
    constructor
    · rintro rfl
      obtain ⟨piece, isIn, terminal⟩ := reads.done.mp ended
      exact ⟨piece, read.subset isIn, terminal⟩
    · rintro ⟨line, isIn, terminal⟩
      by_contra other
      -- Without the word everything is read, this line too.
      obtain ⟨-, all⟩ := reads.closed reason ended other
      have front : lines.flatten <+: (relay.pieces events).flatten :=
        ⟨[], by rw [List.append_nil, all, whole]⟩
      have done := reads.done.mpr ⟨line, (prefix_of_flatten isLine isLine' front).subset isIn, terminal⟩
      exact other (Option.some.inj (ended.symm.trans done))
  · have whole : relay.pieces events = (groups.map (·.map Server.payload)).map List.flatten := by
      rw [same, List.map_map]
      rfl
    have isLine : ∀ group ∈ groups.map (·.map Server.payload), ∀ line ∈ group, Line line := by
      simp [line_payload]
    obtain ⟨group, isIn, line, ends, terminal⟩ := (last _ whole isLine).mp done
    obtain ⟨records, -, rfl⟩ := List.mem_map.mp isIn
    obtain ⟨record, -, rfl⟩ := List.mem_map.mp (List.mem_of_getLast? ends)
    exact absurd terminal (Bool.eq_false_iff.mp (isTerminal_payload record))

/-- Bytes one by one. -/
def bytewise (bytes : List UInt8) : List (List UInt8) := bytes.map ([·])

theorem flatten_bytewise (bytes : List UInt8) : (bytewise bytes).flatten = bytes := by
  induction bytes with
  | nil => rfl
  | cons byte bytes ih => exact congrArg (byte :: ·) ih

theorem of_mem_bytewise {bytes piece : List UInt8} (isIn : piece ∈ bytewise bytes) :
    (piece ≠ [] ∧ piece.length ≤ readLimit) ∧ isTerminal piece = false := by
  obtain ⟨byte, -, rfl⟩ := List.mem_map.mp isIn
  exact ⟨⟨List.cons_ne_nil _ _, by simp [readLimit]⟩, not_terminal_singleton byte⟩

/-- Read byte by byte, a stream never ends the client with the word. -/
theorem course_bytewise (unfailing : relay.Unfailing) (fresh : relay.fromServer = .opened)
    (bytes : List UInt8) : (relay.course (delivery (bytewise bytes))).1 = some .serverClosed := by
  have none : (bytewise bytes).any isTerminal = false :=
    List.any_eq_false.mpr fun piece isIn => by simp [(of_mem_bytewise isIn).2]
  rw [course_delivery unfailing fresh fun piece isIn => (of_mem_bytewise isIn).1, none]
  rfl

/-- Read with the word as a piece of its own, a stream ends the client with the word. -/
theorem course_word (unfailing : relay.Unfailing) (fresh : relay.fromServer = .opened)
    (front back : List UInt8) :
    (relay.course (delivery (bytewise front ++ sentinel :: bytewise back))).1 = some .done := by
  have some : (bytewise front ++ sentinel :: bytewise back).any isTerminal = true :=
    List.any_eq_true.mpr ⟨sentinel, by simp, by decide⟩
  rw [course_delivery unfailing fresh fun piece isIn => ?_, some]
  · rfl
  · rcases List.mem_append.mp isIn with isIn | isIn
    · exact (of_mem_bytewise isIn).1
    · rcases List.mem_cons.mp isIn with rfl | isIn
      · exact ⟨by decide, by decide⟩
      · exact (of_mem_bytewise isIn).1

/-- **The client ends by its reads**, and only by way of them by its lines. A stream can be read in any cut,
and whether the word ends the client is open for exactly those streams that have the word somewhere. -/
theorem ends_by_reads (unfailing : relay.Unfailing) (fresh : relay.fromServer = .opened) :
    (∀ events, GoesByReads relay events ∧ GoesByLines relay events) ∧
      (∀ pieces, (∀ piece ∈ pieces, piece ≠ [] ∧ piece.length ≤ readLimit) →
        stream (delivery pieces) = pieces.flatten ∧
        (relay.course (delivery pieces)).1 =
          if pieces.any isTerminal then some .done else some .serverClosed) ∧
      ∀ bytes,
        ((∃ events, stream events = bytes ∧ (relay.course events).1 = some .done) ↔ sentinel <:+: bytes) ∧
        ∃ events, stream events = bytes ∧ (relay.course events).1 = some .serverClosed := by
  have courses := fun events =>
    And.intro (goesByReads unfailing fresh events) (goesByLines unfailing fresh events)
  refine ⟨courses, fun pieces proper => ?_, fun bytes => ?_⟩
  · exact ⟨stream_delivery pieces, course_delivery unfailing fresh proper⟩
  refine ⟨⟨?_, ?_⟩, delivery (bytewise bytes), ?_, course_bytewise unfailing fresh bytes⟩
  · rintro ⟨events, rfl, ended⟩
    obtain ⟨reads, -⟩ := courses events
    obtain ⟨piece, isIn, terminal⟩ := reads.done.mp ended
    exact (infix_of_terminal terminal).trans ((List.infix_of_mem_flatten isIn).trans reads.pieces.isInfix)
  · rintro ⟨front, back, rfl⟩
    refine ⟨_, ?_, course_word unfailing fresh front back⟩
    simp [stream_delivery, flatten_bytewise]
  · rw [stream_delivery, flatten_bytewise]

/-- A client that has just connected and only listens. -/
def listening : Relay := ⟨.opened, .opened, none, .opened⟩

theorem unfailing_listening : listening.Unfailing := ⟨nofun, nofun, nofun, rfl, rfl⟩

/-- The reads decide on the end of a client that listens, and may end it within a line. -/
theorem ends_by_reads_listening :
    (listening.Unfailing ∧ listening.fromServer = .opened) ∧
      (∀ events, GoesByReads listening events ∧ GoesByLines listening events) ∧
      ∃ events, stream events = encode "abandoned\n".toList ∧ (listening.course events).1 = some .done := by
  obtain ⟨courses, -, streams⟩ := ends_by_reads unfailing_listening rfl
  have inside : sentinel <:+: encode "abandoned\n".toList :=
    ⟨encode "aban".toList, encode "d\n".toList, by decide⟩
  exact ⟨⟨unfailing_listening, rfl⟩, courses, (streams _).1.mpr inside⟩

/-- A record that has the word behind `n` other letters. -/
def worded (n : Nat) : Json := .obj [("x", .str (String.ofList (List.replicate n 'a' ++ "done".toList)))]

theorem payload_worded (n : Nat) : Server.payload (worded n) =
    encode "\x7b\"x\":\"".toList ++ List.replicate n 0x61 ++ (sentinel ++ encode "\"\x7d\n".toList) := by
  have letters : ∀ n, (List.replicate n 'a').flatMap Json.escaped = List.replicate n 'a' := by
    intro n
    induction n with
    | zero => rfl
    | succ n ih =>
      rw [List.replicate_succ, List.flatMap_cons, ih]
      rfl
  have bytes : ∀ n, encode (List.replicate n 'a') = List.replicate n 0x61 := by
    intro n
    induction n with
    | zero => rfl
    | succ n ih =>
      rw [List.replicate_succ, Text.encode_cons, ih]
      rfl
  have text : (worded n).printCompact =
      "\x7b\"x\":\"".toList ++ (List.replicate n 'a' ++ ("done".toList ++ "\"\x7d".toList)) := by
    simp only [worded, Json.printCompact, Json.printCompactMembers, Json.printString, String.toList_ofList,
      List.flatMap_append, letters]
    simp [Json.escaped]
  rw [Server.payload, text, Text.encode_append, Text.encode_append, Text.encode_append, bytes]
  simp only [List.append_assoc]
  rfl

/-- **The lines do not decide.** A line that is the word is missed when two reads share it, or when another
line comes in the same read; and a record that does not fit into one read ends the client when the word
stands where the read ends. -/
theorem lines_do_not_decide :
    let shared :=
      [Event.served (encode "do".toList), .turn, .served (encode "ne\n".toList), .turn, .hungUp, .turn]
    let together := [Event.served (encode "done\nmore\n".toList), .turn, .hungUp, .turn]
    let record := Server.payload (worded 4086)
    isTerminal (encode "done\n".toList) = true ∧
    (stream shared = encode "done\n".toList ∧ (listening.course shared).1 = some .serverClosed) ∧
    (stream together = encode "done\n".toList ++ encode "more\n".toList ∧
      (listening.course together).1 = some .serverClosed) ∧
    isTerminal record = false ∧ (listening.course [.served record, .turn]).1 = some .done := by
  intro shared together record
  refine ⟨by decide, ⟨by decide, by decide⟩, ⟨by decide, by decide⟩, isTerminal_payload _, ?_⟩
  have nonempty : record ≠ [] := by simp [record, Server.payload]
  have front : record.take readLimit =
      encode "\x7b\"x\":\"".toList ++ List.replicate 4086 0x61 ++ sentinel := by
    change List.take readLimit (Server.payload (worded 4086)) = _
    rw [payload_worded, ← List.append_assoc]
    refine List.take_left' ?_
    rw [List.length_append, List.length_append, List.length_replicate]
    rfl
  obtain ⟨_, -, -, goes⟩ := exists_served unfailing_listening rfl nonempty
  rw [goes, front, if_pos (isTerminal_sentinel _)]

end Relay
end TelemetryHub
