import MarkovFit.Proofs.Outcomes
import MarkovFit.Proofs.SessionRun
import MarkovFit.Proofs.TextPieces
import Mathlib.Data.List.TakeDrop
import Mathlib.Data.List.TakeWhile

/-!
# The origin of replies

A server prints a text for each line of its input. A client takes the next line of whatever it has
not read, so an answer belongs to the request of its check exactly when nothing that was printed
before was left unread, in the connection or on its way there. Servers that print exactly one line for
each line of input leave a line for each check that was too late for it. Others leave what they print
besides, and the client goes on after the check that failed.
-/

namespace MarkovFit.Proofs

open Oracle

/-- The text of a reaction. -/
def reactionOutput : Reaction → List UInt8
  | .reply output => output
  | .quit output => output

/-- All that a server has printed, each byte with the number of the input line it was printed for. -/
def printed (server : Server) (written : List String) : List (Nat × UInt8) :=
  written.zipIdx.flatMap fun (line, i) => (reactionOutput (server.react i line)).map (i, ·)

/-- What the server has written and nobody has read, whether it has come or not. -/
def incoming (c : Connection) : List UInt8 := c.unread ++ c.coming

/-- Of what was printed, `taken` has been read and `pending` has not. -/
structure Traced (c : Connection) (taken pending : List (Nat × UInt8)) : Prop where
  printed_eq : printed c.server c.written = taken ++ pending
  incoming_eq : pending.map Prod.snd = incoming c

/-- The byte was printed for a line that was written between two states of a connection. -/
def PrintedBetween (before after : Connection) (b : Nat × UInt8) : Prop :=
  before.written.length ≤ b.1 ∧ b.1 < after.written.length

/-- The bytes of one line of output, with its end if it has one, and the text that is read. -/
inductive IsLine : List UInt8 → String → Prop
  | ended {bytes : List UInt8} {text : String} (hbytes : 10 ∉ bytes)
      (htext : Connection.lineText bytes = .line text) : IsLine (bytes ++ [10]) text
  | last {bytes : List UInt8} {text : String} (hbytes : 10 ∉ bytes) (hne : bytes ≠ [])
      (htext : Connection.restText bytes = .line text) : IsLine bytes text

lemma IsLine.ne_nil {bytes : List UInt8} {text : String} (h : IsLine bytes text) : bytes ≠ [] := by
  cases h with
  | ended => simp
  | last _ hne => exact hne

theorem printed_concat (server : Server) (written : List String) (line : String) :
    printed server (written ++ [line]) = printed server written ++
      (reactionOutput (server.react written.length line)).map (written.length, ·) := by
  simp [printed, List.zipIdx_append]

theorem lt_length_of_mem_printed {server : Server} {written : List String} {b : Nat × UInt8}
    (h : b ∈ printed server written) : b.1 < written.length := by
  obtain ⟨⟨line, i⟩, hline, hb⟩ := List.mem_flatMap.1 h
  obtain ⟨byte, -, rfl⟩ := List.mem_map.1 hb
  have hi := List.mem_zipIdx_iff_getElem?.1 hline
  exact (List.getElem?_eq_some_iff.1 hi).1

/-! ### Sending -/

/-- Lines were written; `own` was printed for them and nothing was read. -/
structure Sends (c c' : Connection) (own : List (Nat × UInt8)) : Prop where
  server_eq : c'.server = c.server
  sequence_eq : c'.sequence = c.sequence
  printed_eq : printed c'.server c'.written = printed c.server c.written ++ own
  incoming_eq : incoming c' = incoming c ++ own.map Prod.snd
  length_le : c.written.length ≤ c'.written.length
  own_le : ∀ b ∈ own, c.written.length ≤ b.1

theorem Sends.refl (c : Connection) : Sends c c [] :=
  ⟨rfl, rfl, by simp, by simp, Nat.le_refl _, by simp⟩

theorem Sends.trans {c₁ c₂ c₃ : Connection} {own own' : List (Nat × UInt8)} (h : Sends c₁ c₂ own)
    (h' : Sends c₂ c₃ own') : Sends c₁ c₃ (own ++ own') where
  server_eq := h'.server_eq.trans h.server_eq
  sequence_eq := h'.sequence_eq.trans h.sequence_eq
  printed_eq := by rw [h'.printed_eq, h.printed_eq, List.append_assoc]
  incoming_eq := by rw [h'.incoming_eq, h.incoming_eq, List.map_append, List.append_assoc]
  length_le := Nat.le_trans h.length_le h'.length_le
  own_le b hb := by
    rcases List.mem_append.1 hb with hb | hb
    · exact h.own_le b hb
    · exact Nat.le_trans h.length_le (h'.own_le b hb)

lemma incoming_come (c : Connection) (count : Option Nat) : incoming (c.come count) = incoming c := by
  cases count with
  | none => exact List.append_nil _
  | some k => rw [incoming, Connection.come, List.append_assoc, List.take_append_drop, incoming]

theorem come_sends (c : Connection) (count : Option Nat) : Sends c (c.come count) [] := by
  have hincoming : incoming (c.come count) = incoming c ++ [] := by
    rw [incoming_come, List.append_nil]
  cases count <;> exact ⟨rfl, rfl, by simp [Connection.come], hincoming, Nat.le_refl _, by simp⟩

lemma feed_eq {c : Connection} (hfinished : c.finished = false) (line : String) :
    ∃ finished, c.feed line =
      { c with
        written := c.written ++ [line]
        coming := c.coming ++ reactionOutput (c.server.react c.written.length line)
        finished := finished } := by
  have hnot : ¬c.finished = true := by simp [hfinished]
  rw [Connection.feed, if_neg hnot]
  cases hreact : c.server.react c.written.length line with
  | reply output => exact ⟨c.finished, rfl⟩
  | quit output => exact ⟨true, rfl⟩

theorem feed_sends (c : Connection) (line : String) : ∃ own, Sends c (c.feed line) own := by
  cases hfinished : c.finished with
  | true =>
    refine ⟨[], ?_⟩
    rw [Connection.feed, if_pos hfinished]
    exact Sends.refl c
  | false =>
    obtain ⟨finished, hfeed⟩ := feed_eq hfinished line
    rw [hfeed]
    refine ⟨_, rfl, rfl, printed_concat _ _ _, ?_, ?_, ?_⟩
    · rw [incoming, incoming, List.map_map, Function.comp_def, List.map_id', List.append_assoc]
    · simp
    · intro b hb
      obtain ⟨byte, -, rfl⟩ := List.mem_map.1 hb
      exact Nat.le_refl _

theorem foldl_feed_sends (lines : List String) (c : Connection) :
    ∃ own, Sends c (lines.foldl Connection.feed c) own := by
  induction lines generalizing c with
  | nil => exact ⟨[], Sends.refl c⟩
  | cons line lines ih =>
    obtain ⟨own, hfirst⟩ := feed_sends c line
    obtain ⟨own', hrest⟩ := ih (c.feed line)
    exact ⟨own ++ own', hfirst.trans hrest⟩

/-- Counting the texts that were sent changes nothing else. -/
lemma Sends.counted {c c' : Connection} {own : List (Nat × UInt8)} (h : Sends c c' own) (n : Nat) :
    Sends c { c' with sent := n } own :=
  ⟨h.server_eq, h.sequence_eq, h.printed_eq, h.incoming_eq, h.length_le, h.own_le⟩

/-- A text is sent, and its answer is waited for. -/
theorem send?_sends {c sent : Connection} {text : String} (h : c.send? text = some sent)
    (timeout : Option Nat) : ∃ own, Sends c (sent.await timeout) own := by
  unfold Connection.send? at h
  dsimp only at h
  split at h
  · cases h
  · cases h
    obtain ⟨own, hfed⟩ := foldl_feed_sends (Text.pieces '\n' text)
      (c.come (c.server.pace.before c.sent))
    exact ⟨_, (((come_sends c _).trans hfed).counted _).trans (come_sends _ _)⟩

theorem Traced.sends {c c' : Connection} {taken pending own : List (Nat × UInt8)}
    (h : Traced c taken pending) (hsends : Sends c c' own) : Traced c' taken (pending ++ own) where
  printed_eq := by rw [hsends.printed_eq, h.printed_eq, List.append_assoc]
  incoming_eq := by rw [hsends.incoming_eq, List.map_append, h.incoming_eq]

/-! ### Receiving -/

/-- The bytes in front of the first line feed, and what is left from there on. -/
theorem span_line (unread : List UInt8) :
    ∃ bytes, 10 ∉ bytes ∧
      ((∃ rest, unread = bytes ++ 10 :: rest ∧ unread.span (· != 10) = (bytes, 10 :: rest)) ∨
        unread = bytes ∧ unread.span (· != 10) = (bytes, [])) := by
  refine ⟨unread.takeWhile (· != 10), ?_, ?_⟩
  · intro hmem
    simpa using List.mem_takeWhile_imp hmem
  · have happend := List.takeWhile_append_dropWhile (p := (· != 10)) (l := unread)
    rw [List.span_eq_takeWhile_dropWhile]
    cases hdrop : unread.dropWhile (· != 10) with
    | nil =>
      rw [hdrop, List.append_nil] at happend
      exact .inr ⟨happend.symm, rfl⟩
    | cons b rest =>
      have hb : b = 10 := by
        have hhead := List.head?_dropWhile_not (· != 10) unread
        simpa [hdrop] using hhead
      rw [hdrop, hb] at happend
      exact .inl ⟨rest, happend.symm, by rw [hb]⟩

theorem span_of_not_mem {bytes rest : List UInt8} (h : 10 ∉ bytes) :
    (bytes ++ 10 :: rest).span (· != 10) = (bytes, 10 :: rest) := by
  have hother : ∀ b ∈ bytes, (b != 10) = true := by
    intro b hb
    have hne : b ≠ 10 := fun heq => h (heq ▸ hb)
    simpa using hne
  rw [List.span_eq_takeWhile_dropWhile, List.takeWhile_append_of_pos hother,
    List.dropWhile_append_of_pos hother]
  simp

theorem receive_line {c : Connection} {bytes rest : List UInt8}
    (hspan : c.unread.span (· != 10) = (bytes, 10 :: rest)) :
    c.receive = (Connection.lineText bytes, { c with unread := rest }) := by
  rw [Connection.receive, hspan]

theorem receive_last {c : Connection} {b : UInt8} {bytes : List UInt8}
    (hspan : c.unread.span (· != 10) = (b :: bytes, [])) (hended : c.ended = true) :
    c.receive = (Connection.restText (b :: bytes), { c with unread := [] }) := by
  rw [Connection.receive, hspan]
  exact if_pos hended

/-- Nothing is read where there is nothing, or where the line may go on. -/
theorem receive_nothing {c : Connection} {bytes : List UInt8}
    (hspan : c.unread.span (· != 10) = (bytes, [])) (h : bytes = [] ∨ ¬c.ended = true) :
    c.receive.2 = c ∧ ∀ text, c.receive.1 ≠ .line text := by
  rw [Connection.receive, hspan]
  cases bytes with
  | nil =>
    refine ⟨rfl, ?_⟩
    intro text
    change (if c.ended = true then Received.closed else .late) ≠ _
    by_cases hended : c.ended = true
    · simp [if_pos hended]
    · simp [if_neg hended]
  | cons b bytes =>
    have hgoing : ¬c.ended = true := h.resolve_left (List.cons_ne_nil b bytes)
    change (if c.ended = true then _ else (Received.late, c)).2 = c ∧
      ∀ text, (if c.ended = true then _ else (Received.late, c)).1 ≠ _
    simp [if_neg hgoing]

theorem receive_late {c : Connection} {bytes : List UInt8}
    (hspan : c.unread.span (· != 10) = (bytes, [])) (hended : c.ended = false) :
    c.receive = (.late, c) := by
  rw [Connection.receive, hspan]
  cases bytes <;> simp [hended]

/-- Reading takes a part from the front of what is unread; a text that is read is one line. -/
theorem receive_spec (c : Connection) :
    ∃ chunk rest, c.unread = chunk ++ rest ∧ c.receive.2 = { c with unread := rest } ∧
      ∀ text, c.receive.1 = .line text → IsLine chunk text := by
  obtain ⟨bytes, hbytes, ⟨rest, hunread, hspan⟩ | ⟨hunread, hspan⟩⟩ := span_line c.unread
  · rw [receive_line hspan]
    refine ⟨bytes ++ [10], rest, by simp [hunread], rfl, ?_⟩
    intro text htext
    exact .ended hbytes htext
  · by_cases h : bytes = [] ∨ ¬c.ended = true
    · obtain ⟨hsame, hnone⟩ := receive_nothing hspan h
      refine ⟨[], c.unread, rfl, hsame, ?_⟩
      intro text htext
      exact absurd htext (hnone text)
    · obtain ⟨hne, hended⟩ := not_or.1 h
      obtain ⟨b, rest, rfl⟩ := List.exists_cons_of_ne_nil hne
      rw [receive_last hspan (not_not.1 hended)]
      refine ⟨c.unread, [], by simp, rfl, ?_⟩
      intro text htext
      rw [hunread]
      exact .last hbytes hne htext

theorem Traced.receive {c : Connection} {taken pending : List (Nat × UInt8)}
    (h : Traced c taken pending) :
    ∃ chunk left, pending = chunk ++ left ∧ Traced c.receive.2 (taken ++ chunk) left ∧
      ∀ text, c.receive.1 = .line text → IsLine (chunk.map Prod.snd) text := by
  obtain ⟨bytes, rest, hunread, hreceive, hline⟩ := receive_spec c
  have hpending := h.incoming_eq
  rw [incoming, hunread, List.append_assoc, List.map_eq_append_iff] at hpending
  obtain ⟨chunk, left, rfl, rfl, hleft⟩ := hpending
  refine ⟨chunk, left, rfl, ⟨?_, ?_⟩, hline⟩
  · rw [hreceive, List.append_assoc]
    exact h.printed_eq
  · rw [hreceive]
    exact hleft

/-! ### Round trips -/

theorem roundTrip_server (c : Connection) (timeout : Option Nat) (sample : List Constant) :
    (c.roundTrip timeout sample).2.server = c.server := by
  obtain ⟨-, hsame, -⟩ | ⟨sent, n, hsent, hafter, -⟩ := roundTrip_cases c timeout sample
  · rw [hsame]
  · obtain ⟨own, hsends⟩ := send?_sends hsent timeout
    obtain ⟨chunk, rest, -, hreceive, -⟩ := receive_spec (sent.await timeout)
    rw [hafter, hreceive]
    exact hsends.server_eq

/-- A round trip keeps the account of what was printed, read and not read. -/
theorem Traced.roundTrip {c : Connection} {taken pending : List (Nat × UInt8)}
    (h : Traced c taken pending) (timeout : Option Nat) (sample : List Constant) :
    ∃ taken pending, Traced (c.roundTrip timeout sample).2 taken pending := by
  obtain ⟨-, hsame, -⟩ | ⟨sent, n, hsent, hafter, -⟩ := roundTrip_cases c timeout sample
  · rw [hsame]
    exact ⟨taken, pending, h⟩
  · obtain ⟨own, hsends⟩ := send?_sends hsent timeout
    obtain ⟨chunk, left, -, hreceived, -⟩ := (h.sends hsends).receive
    rw [hafter]
    exact ⟨taken ++ chunk, left, hreceived.printed_eq, hreceived.incoming_eq⟩

/-- The connection of every run accounts for all that was printed. -/
theorem exists_traced {m : Type → Type} {host : Host m} {spec : ModelSpec} {calls : List Call}
    {c : Connection} (hc : (sessionAfter host spec calls).connection = some c) :
    ∃ taken pending, Traced c taken pending := by
  refine connection_of_sessionAfter (P := fun c _ => ∃ taken pending, Traced c taken pending) ?_ ?_ hc
  · intro invocation server _
    exact ⟨[], [], rfl, rfl⟩
  · rintro sample c - - ⟨taken, pending, htraced⟩
    exact htraced.roundTrip spec.timeout sample

/-- A good answer was read from the next line after all that had been read: first from what was left
unread, then from what was printed for the request itself. -/
theorem Traced.roundTrip_eq_ok {c c' : Connection} {taken pending : List (Nat × UInt8)}
    (h : Traced c taken pending) {timeout : Option Nat} {sample : List Constant} {v : Answer}
    (hok : c.roundTrip timeout sample = (.ok v, c')) :
    ∃ own chunk left line, pending ++ own = chunk ++ left ∧ Traced c' (taken ++ chunk) left ∧
      (∀ b ∈ own, PrintedBetween c c' b) ∧ IsLine (chunk.map Prod.snd) line ∧
      Connection.readReply c.sequence line = .ok v := by
  obtain ⟨sent, received, line, hsent, hreceive, hreply, rfl⟩ := MarkovFit.Proofs.roundTrip_eq_ok hok
  obtain ⟨own, hsends⟩ := send?_sends hsent timeout
  have hpending := h.sends hsends
  obtain ⟨chunk, left, hsplit, htraced, hline⟩ := hpending.receive
  obtain ⟨_, rest, -, hframe, -⟩ := receive_spec (sent.await timeout)
  rw [hreceive] at htraced hline hframe
  change received = _ at hframe
  have hwritten : received.written = (sent.await timeout).written := by rw [hframe]
  have hsequence : received.sequence = c.sequence := by rw [hframe, ← hsends.sequence_eq]
  refine ⟨own, chunk, left, line, hsplit, ⟨htraced.printed_eq, htraced.incoming_eq⟩, ?_,
    hline line rfl, hsequence ▸ hreply⟩
  intro b hb
  refine ⟨hsends.own_le b hb, ?_⟩
  have hmem : b ∈ printed (sent.await timeout).server (sent.await timeout).written := by
    rw [hpending.printed_eq]
    simp [hb]
  rw [hwritten]
  exact lt_length_of_mem_printed hmem

/-- The line consists of what was printed for the request exactly when nothing was left unread. -/
theorem forall_printedBetween_iff {c c' : Connection}
    {taken pending own chunk left : List (Nat × UInt8)} {line : String} (h : Traced c taken pending)
    (hsplit : pending ++ own = chunk ++ left) (hown : ∀ b ∈ own, PrintedBetween c c' b)
    (hline : IsLine (chunk.map Prod.snd) line) :
    (∀ b ∈ chunk, PrintedBetween c c' b) ↔ pending = [] := by
  constructor
  · intro hchunk
    cases pending with
    | nil => rfl
    | cons b pending =>
      cases chunk with
      | nil => exact absurd rfl hline.ne_nil
      | cons b' chunk =>
        -- The first byte that was left unread belongs to an earlier line and is read first.
        obtain rfl : b = b' := (List.cons.inj hsplit).1
        have hprinted : b ∈ printed c.server c.written := by
          rw [h.printed_eq]
          simp
        have hearlier := lt_length_of_mem_printed hprinted
        have hlater := (hchunk b List.mem_cons_self).1
        omega
  · rintro rfl b hb
    apply hown b
    rw [List.nil_append] at hsplit
    rw [hsplit]
    exact List.mem_append_left _ hb

/-! ### Servers that answer line by line -/

/-- The server goes on and prints exactly one line for each line of its input. -/
def LineByLine (server : Server) : Prop :=
  ∀ i line, ∃ bytes, 10 ∉ bytes ∧ server.react i line = .reply (bytes ++ [10])

/-- The request of the sample is a single line. -/
def OneLine (sample : List Constant) : Prop := '\n' ∉ (Constant.listText sample).toList

theorem pieces_requestLine {sample : List Constant} (h : OneLine sample) (n : Nat) :
    Text.pieces '\n' (requestLine n sample) = [requestLine n sample] := by
  have hdigits : '\n' ∉ (toString n).toList := by
    intro hmem
    rw [Nat.toString_eq_repr, Nat.toList_repr] at hmem
    have hdigit := Nat.isDigit_of_mem_toDigits (by decide) (by decide) hmem
    exact absurd hdigit (by decide)
  have hline : '\n' ∉ (requestLine n sample).toList := by
    intro hmem
    simp only [requestLine, String.toList_append, List.mem_append] at hmem
    obtain (hmem | hmem) | hmem := hmem
    · exact hdigits hmem
    · exact absurd hmem (by decide)
    · exact h hmem
  exact pieces_of_not_mem hline

/-- A server that goes on has written some lines that nobody has read. -/
structure Backlog (c : Connection) (lines : List (List UInt8)) : Prop where
  running : c.finished = false
  connected : c.ended = false
  unbroken : ∀ line ∈ lines, 10 ∉ line
  incoming_eq : incoming c = lines.flatMap (· ++ [10])

lemma Backlog.come {c : Connection} {lines : List (List UInt8)} (h : Backlog c lines)
    (count : Option Nat) : Backlog (c.come count) lines := by
  have hincoming := (incoming_come c count).trans h.incoming_eq
  cases count with
  | none => exact ⟨h.running, h.running, h.unbroken, hincoming⟩
  | some k => exact ⟨h.running, h.connected, h.unbroken, hincoming⟩

/-- A request makes such a server write one more line. -/
lemma Backlog.send {c sent : Connection} {lines : List (List UInt8)} {sample : List Constant}
    (h : Backlog c lines) (hserver : LineByLine c.server) (hsample : OneLine sample) {n : Nat}
    (hsent : c.send? (requestLine n sample) = some sent) :
    ∃ line, Backlog sent (lines ++ [line]) := by
  have hcome := h.come (c.server.pace.before c.sent)
  have hsame : (c.come (c.server.pace.before c.sent)).server = c.server := (come_sends c _).server_eq
  rw [Connection.send?, if_neg (by simp [hcome.connected]), pieces_requestLine hsample,
    List.foldl_cons, List.foldl_nil] at hsent
  generalize c.come (c.server.pace.before c.sent) = c' at hsent hcome hsame
  obtain ⟨line, hline, hreact⟩ := hserver c'.written.length (requestLine n sample)
  have hnot : ¬c'.finished = true := by simp [hcome.running]
  rw [Connection.feed, if_neg hnot, hsame, hreact] at hsent
  cases hsent
  refine ⟨line, hcome.running, hcome.connected, ?_, ?_⟩
  · rw [List.forall_mem_append, List.forall_mem_singleton]
    exact ⟨hcome.unbroken, hline⟩
  · have hincoming : c'.unread ++ (c'.coming ++ (line ++ [10])) =
        lines.flatMap (· ++ [10]) ++ (line ++ [10]) := by
      rw [← hcome.incoming_eq, incoming, List.append_assoc]
    rw [List.flatMap_append, List.flatMap_singleton]
    exact hincoming

/-- The first line is read if it has come to its end. -/
lemma Backlog.receive {c : Connection} {line : List UInt8} {lines : List (List UInt8)}
    (h : Backlog c (line :: lines)) :
    (c.receive = (.late, c) ∧ 10 ∉ c.unread) ∨
      (c.receive.1 ≠ .late ∧ Backlog c.receive.2 lines) := by
  obtain ⟨hline, hlines⟩ := List.forall_mem_cons.1 h.unbroken
  obtain ⟨bytes, hbytes, ⟨rest, hunread, hspan⟩ | ⟨hunread, hspan⟩⟩ := span_line c.unread
  · have hincoming : bytes ++ 10 :: (rest ++ c.coming) = line ++ 10 :: lines.flatMap (· ++ [10]) := by
      have hall := h.incoming_eq
      rw [incoming, hunread, List.flatMap_cons] at hall
      simpa using hall
    have hcut := congrArg (List.span (· != 10)) hincoming
    rw [span_of_not_mem hbytes, span_of_not_mem hline] at hcut
    have hrest := (List.cons.inj (Prod.mk.inj hcut).2).2
    rw [receive_line hspan]
    refine .inr ⟨?_, h.running, h.connected, hlines, hrest⟩
    unfold Connection.lineText
    split <;> nofun
  · exact .inl ⟨receive_late hspan h.connected, hunread ▸ hbytes⟩

/-- Against such a server a round trip reads one line, and one more line is left if it is late. -/
theorem Backlog.roundTrip {c : Connection} {lines : List (List UInt8)} {sample : List Constant}
    (h : Backlog c lines) (hserver : LineByLine c.server) (hsample : OneLine sample)
    (timeout : Option Nat) :
    ∃ left, Backlog (c.roundTrip timeout sample).2 left ∧
      left.length = lines.length + (wasLate (c.roundTrip timeout sample).1).toNat ∧
      (timeout = none → wasLate (c.roundTrip timeout sample).1 = false) := by
  obtain ⟨-, hsame, hlate⟩ | ⟨sent, n, hsent, hafter, hlate⟩ := roundTrip_cases c timeout sample
  · rw [hsame, hlate]
    exact ⟨lines, h, rfl, fun _ => rfl⟩
  · obtain ⟨line, hwaiting⟩ := h.send hserver hsample hsent
    have hcome : Backlog (sent.await timeout) (lines ++ [line]) := hwaiting.come _
    have hlength : (lines ++ [line]).length = lines.length + 1 := List.length_append
    obtain ⟨first, rest, hlines⟩ := List.exists_cons_of_ne_nil
      (List.append_ne_nil_of_right_ne_nil lines (List.cons_ne_nil line []))
    rw [hlines] at hcome hlength
    rw [hafter]
    obtain ⟨hreceive, hunread⟩ | ⟨hreceive, hleft⟩ := hcome.receive
    · rw [hreceive] at hlate ⊢
      rw [hlate.2 rfl]
      refine ⟨first :: rest, ⟨hcome.1, hcome.2, hcome.3, hcome.4⟩, hlength, ?_⟩
      -- Without a limit all lines have come, and the first of them is there to its end.
      rintro rfl
      refine absurd ?_ hunread
      have hall : (sent.await none).unread = incoming (sent.await none) := (List.append_nil _).symm
      rw [hall, hcome.incoming_eq, List.flatMap_cons]
      simp
    · have hnot : wasLate (c.roundTrip timeout sample).1 = false :=
        Bool.eq_false_iff.2 (mt hlate.1 hreceive)
      rw [hnot]
      exact ⟨rest, ⟨hleft.1, hleft.2, hleft.3, hleft.4⟩, Nat.succ.inj hlength, fun _ => rfl⟩

/-- Such a server has left a line for each late check, whatever its lines say. -/
theorem exists_backlog {m : Type → Type} {host : Host m} {spec : ModelSpec} {calls : List Call}
    (hcalls : ∀ sample, .check sample ∈ calls → OneLine sample) {c : Connection}
    (hc : (sessionAfter host spec calls).connection = some c) (hserver : LineByLine c.server) :
    ∃ lines, Backlog c lines ∧ lines.length = lateChecks host spec calls ∧
      (spec.timeout = none → lateChecks host spec calls = 0) := by
  refine connection_of_sessionAfter (P := fun c late => LineByLine c.server → ∃ lines,
    Backlog c lines ∧ lines.length = late ∧ (spec.timeout = none → late = 0)) ?_ ?_ hc hserver
  · intro invocation server _ _
    exact ⟨[], ⟨rfl, rfl, List.forall_mem_nil _, rfl⟩, rfl, fun _ => rfl⟩
  · intro sample c late hmem ih hserver
    rw [roundTrip_server] at hserver
    obtain ⟨lines, hlines, hlength, hnone⟩ := ih hserver
    obtain ⟨left, hleft, hlength', hnone'⟩ :=
      hlines.roundTrip hserver (hcalls sample hmem) spec.timeout
    refine ⟨left, hleft, hlength ▸ hlength', fun htimeout => ?_⟩
    rw [hnone htimeout, hnone' htimeout]
    rfl

/-- The line feeds of some lines. -/
lemma count_lineFeeds {lines : List (List UInt8)} (h : ∀ line ∈ lines, 10 ∉ line) :
    (lines.flatMap (· ++ [10])).count 10 = lines.length := by
  induction lines with
  | nil => rfl
  | cons line lines ih =>
    obtain ⟨hline, hlines⟩ := List.forall_mem_cons.1 h
    rw [List.flatMap_cons, List.count_append, List.count_append, List.count_eq_zero_of_not_mem hline,
      ih hlines, List.length_cons, List.count_singleton_self, Nat.zero_add, Nat.add_comm]

/-- Every answer was read from one line of the output, that which follows all the lines read before.
It was printed for the request of the check, and for nothing else, exactly when nothing of what was
printed for earlier lines was left unread. Of a server that answers line by line there is one line left
for each earlier check that was late, so that the answer belongs to the request exactly if none was,
and none is without a time limit. -/
theorem answer_from_own_reply_iff {m : Type → Type} (host : Host m) (spec : ModelSpec)
    (calls : List Call) (sample : List Constant) (v : Answer) (after : Session)
    (h : Client.check spec sample (sessionAfter host spec calls) = (.ok v, after)) :
    ∃ (c c' : Connection) (taken pending own chunk left : List (Nat × UInt8)) (line : String),
      (sessionAfter host spec calls).connection = some c ∧ after.connection = some c' ∧
      Traced c taken pending ∧ Traced c' (taken ++ chunk) left ∧ pending ++ own = chunk ++ left ∧
      (∀ b ∈ own, PrintedBetween c c' b) ∧ IsLine (chunk.map Prod.snd) line ∧
      Connection.readReply c.sequence line = .ok v ∧
      ((∀ b ∈ chunk, PrintedBetween c c' b) ↔ pending = []) ∧
      (LineByLine c.server → (∀ sample, .check sample ∈ calls → OneLine sample) →
        (pending.map Prod.snd).count 10 = lateChecks host spec calls ∧
          (pending = [] ↔ lateChecks host spec calls = 0) ∧
          (spec.timeout = none → lateChecks host spec calls = 0)) := by
  obtain ⟨c, c', -, hc, hroundTrip, hc'⟩ := check_eq_ok h
  obtain ⟨taken, pending, htraced⟩ := exists_traced hc
  obtain ⟨own, chunk, left, line, hsplit, htraced', hown, hline, hreply⟩ :=
    htraced.roundTrip_eq_ok hroundTrip
  refine ⟨c, c', taken, pending, own, chunk, left, line, hc, hc', htraced, htraced', hsplit, hown,
    hline, hreply, forall_printedBetween_iff htraced hsplit hown hline, ?_⟩
  intro hserver hcalls
  obtain ⟨lines, hlines, hlength, hnone⟩ := exists_backlog hcalls hc hserver
  have hbytes := htraced.incoming_eq.trans hlines.incoming_eq
  have hcount : (pending.map Prod.snd).count 10 = lines.length :=
    hbytes ▸ count_lineFeeds hlines.unbroken
  refine ⟨hcount.trans hlength, ?_, hnone⟩
  rw [← hlength, List.length_eq_zero_iff]
  constructor
  · rintro rfl
    exact List.length_eq_zero_iff.1 hcount.symm
  · rintro rfl
    exact List.map_eq_nil_iff.1 hbytes

/-- The world of a server. -/
def worldOf (server : Server) : Host Id where
  readable _ := true
  scratch := ""
  run _ := .late
  serve _ := .ok server

/-- A server with one reply to its first line of input, and another one to each later line. -/
def repliesOf (first later : String) : Server where
  react i _ := .reply <| ByteArray.toList <| String.toUTF8 <| if i = 0 then first else later
  atEnd := some []

/-- Two lines are printed for the first line of input. -/
def strayServer : Server :=
  repliesOf "garbage\nStormCWrapper_RESULT:0:5\n" "StormCWrapper_RESULT:0:7\n"

def strayHost : Host Id := worldOf strayServer

/-- The first reply comes when its check is over. -/
def lateServer : Server :=
  { repliesOf "StormCWrapper_RESULT:0:5\n" "StormCWrapper_RESULT:0:7\n" with
    pace := { within := fun sent => if sent = 1 then some 0 else none } }

def straySpec : ModelSpec :=
  { file := some "model.jani", type := some .jani, property := some "P=? [ F done ]",
    timeout := some 10 }

/-- The second check takes the reply that came too late for the first one. -/
example :
    (Client.check straySpec [⟨"p", "0.2"⟩]
      (sessionAfter (worldOf lateServer) straySpec [.start, .check [⟨"p", "0.1"⟩]])).1.toOption =
        some (.finite ⟨false, 5, 0, by decide, by decide⟩) := by
  decide +kernel

/-- A check failed on the first line of the server; the next one takes the second line. -/
theorem strayServer_answer :
    ∃ (after : Session) (c c' : Connection) (taken chunk left : List (Nat × UInt8)) (line : String),
      Client.check straySpec [⟨"p", "0.2"⟩]
          (sessionAfter strayHost straySpec [.start, .check [⟨"p", "0.1"⟩]]) =
        (.ok (.finite ⟨false, 5, 0, by decide, by decide⟩), after) ∧
      (sessionAfter strayHost straySpec [.start, .check [⟨"p", "0.1"⟩]]).connection = some c ∧
      after.connection = some c' ∧ Traced c' (taken ++ chunk) left ∧
      IsLine (chunk.map Prod.snd) line ∧ ¬∀ b ∈ chunk, PrintedBetween c c' b := by
  have hanswer : (Client.check straySpec [⟨"p", "0.2"⟩]
      (sessionAfter strayHost straySpec [.start, .check [⟨"p", "0.1"⟩]])).1.toOption =
        some (.finite ⟨false, 5, 0, by decide, by decide⟩) := by
    decide +kernel
  have hleft : ∃ c ∈ (sessionAfter strayHost straySpec [.start, .check [⟨"p", "0.1"⟩]]).connection,
      incoming c ≠ [] := by
    decide +kernel
  generalize hcheck : Client.check straySpec [⟨"p", "0.2"⟩]
    (sessionAfter strayHost straySpec [.start, .check [⟨"p", "0.1"⟩]]) = result at hanswer ⊢
  obtain ⟨answer, after⟩ := result
  obtain rfl : answer = _ := toOption_eq_some.1 hanswer
  obtain ⟨c, c', taken, pending, own, chunk, left, line, hc, hc', htraced, htraced', -, -, hline, -,
    hiff, -⟩ := answer_from_own_reply_iff strayHost straySpec [.start, .check [⟨"p", "0.1"⟩]]
      [⟨"p", "0.2"⟩] _ _ hcheck
  refine ⟨after, c, c', taken, chunk, left, line, rfl, hc, hc', htraced', hline, ?_⟩
  intro hown
  obtain ⟨c₀, hc₀, hne⟩ := hleft
  obtain rfl : c₀ = c := Option.some.inj (hc₀.symm.trans hc)
  rw [hiff.1 hown] at htraced
  exact hne htraced.incoming_eq.symm

end MarkovFit.Proofs
