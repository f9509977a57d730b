import Persea.BaseExcept
import Persea.GuacdParams
import Persea.ProtocolStreaming

/-! The handshake with guacd. Every instruction is read with a parser and a buffer of its own: what a read brings
beyond the first instruction is dropped with them, and a read that ends inside a character is refused. -/

namespace Persea.Guacd

open Base Base.Text Protocol List InstructionParser Except

inductive GuacdStatus where
  | clientUnauthorized
  | sessionTimeout
  | other (code : Int)
deriving DecidableEq, Repr

def GuacdStatus.fromCode (code : Int) : GuacdStatus :=
  if code = 0x0301 then .clientUnauthorized else if code = 0x020A then .sessionTimeout else .other code

def GuacdStatus.parse (arg : Text) : Option GuacdStatus := (parseI64 arg).map fromCode

inductive GuacdError where
  | connection (msg : String)
  | io (msg : String)
  | protocol (msg : String)
  | errorInstruction (message : String) (status : Option GuacdStatus)
deriving DecidableEq, Repr

structure Env where
  utf8Error : Bytes → String
  debugArgs : List Text → String

def gotOpcode (context : String) (i : Instruction) : String := context ++ ", got '" ++ String.ofList i.opcode ++ "'"

variable (env : Env)

def unexpectedInstructionParts (context : String) (i : Instruction) : String × Option GuacdStatus :=
  (gotOpcode context i ++ " (args: " ++ env.debugArgs i.args ++ ")",
    if i.opcode = "error" then i.args[1]?.bind GuacdStatus.parse else none)

def unexpectedInstructionError (context : String) (i : Instruction) : GuacdError :=
  match unexpectedInstructionParts env context i with
  | (message, some status) => .errorInstruction message (some status)
  | (message, none) => if i.opcode = "error" then .errorInstruction message none else .protocol message

/-- The connected socket: what the reads to come return, which of the writes to come fail, and what has been
written. -/
structure Stream where
  reads : List (Except String Bytes)
  writes : List (Option String)
  written : Bytes

def Stream.writeAll (s : Stream) (i : Instruction) : Except GuacdError Stream :=
  match s.writes with
  | some e :: _ => .error (.io e)
  | none :: writes => .ok { s with writes, written := s.written ++ i.bytes }
  | [] => .ok { s with written := s.written ++ i.bytes }

def readLoop (env : Env) (parser : InstructionParser) :
    List (Except String Bytes) → Except GuacdError Instruction × List (Except String Bytes)
  | [] => (.error (.connection "guacd closed connection"), [])
  | .error e :: reads => (.error (.io e), reads)
  | .ok buf :: reads =>
    if buf = [] then (.error (.connection "guacd closed connection"), reads)
    else
      match Utf8.decode buf with
      | none => (.error (.protocol ("Invalid UTF-8 from guacd: " ++ env.utf8Error buf)), reads)
      | some data =>
        match (parser.receive data).1 with
        -- Further results, and what the parser has buffered, are dropped.
        | .ok i :: _ => (.ok i, reads)
        | .error e :: _ => (.error (.protocol e.display), reads)
        | [] => readLoop env (parser.receive data).2 reads

def readInstruction (s : Stream) : Except GuacdError (Instruction × Stream) :=
  match readLoop env new s.reads with
  | (.error e, _) => .error e
  | (.ok i, reads) => .ok (i, { s with reads })

def word (opcode : String) (args : List String) : Instruction := ⟨opcode.toList, args.map String.toList⟩

def handshakeInstructions (size : Nat × Nat × Nat) (enableH264 : Bool) : List Instruction :=
  [word "size" [toString size.1, toString size.2.1, toString size.2.2], word "audio" ["audio/L16", "audio/L8"],
    word "video" (if enableH264 then ["video/h264"] else []),
    word "image" ["image/png", "image/jpeg", "image/webp"],
    word "timezone" ["Australia/Brisbane"]]

def sendHandshake (s : Stream) (size : Nat × Nat × Nat) (enableH264 : Bool) : Except GuacdError Stream :=
  (handshakeInstructions size enableH264).foldlM Stream.writeAll s

def argsOpcode : Text := "args"

def readyOpcode : Text := "ready"

def negotiate (selected argsContext readyContext : String) (value : Text → Text) (size : Nat × Nat × Nat)
    (enableH264 : Bool) (s : Stream) : Except GuacdError (Instruction × Stream) := do
  let s ← s.writeAll (word "select" [selected])
  let (args, s) ← readInstruction env s
  if args.opcode = argsOpcode then
    let s ← sendHandshake s size enableH264
    let s ← s.writeAll ⟨"connect", args.args.map value⟩
    let (ready, s) ← readInstruction env s
    if ready.opcode = readyOpcode then return (ready, s)
    else .error (unexpectedInstructionError env readyContext ready)
  else .error (.protocol (gotOpcode argsContext args))

def environ : Instruction := word "environ" ["LANG", "en_US.UTF-8"]

def connectAndHandshake (env : Env) (params : ConnectionParams) (s : Stream) : Except GuacdError (Stream × Text) := do
  let value (name : Text) : Text := (params.argValue (String.ofList name)).toList
  let (ready, s) ← negotiate env params.protocol "Expected 'args' instruction" "Expected 'ready' instruction" value
    params.size params.h264 s
  let connectionId := ready.args.head?.getD "unknown"
  match params with
  | .ssh _ => return (← s.writeAll environ, connectionId)
  | .vnc _ | .rdp _ | .spice _ => return (s, connectionId)

def joinArgValue (readOnly : Bool) (name : Text) : Text := if name = "read-only" then (flag readOnly).toList else []

def joinConnection (connectionId : String) (size : Nat × Nat × Nat) (readOnly : Bool) (s : Stream) :
    Except GuacdError Stream := do
  let (_, s) ← negotiate env connectionId "Expected 'args' from join" "Expected 'ready' from join"
    (joinArgValue readOnly) size false s
  return s

theorem foldlM_writeAll (reads : List (Except String Bytes)) (written : Bytes) (instrs : List Instruction) :
    instrs.foldlM Stream.writeAll ⟨reads, [], written⟩ = .ok ⟨reads, [], written ++ streamBytes instrs⟩ := by
  induction instrs generalizing written with
  | nil =>
    rw [streamBytes, map_nil, flatten_nil, append_nil]
    rfl
  | cons i instrs ih =>
    have hcons : streamBytes (i :: instrs) = i.bytes ++ streamBytes instrs := rfl
    rw [hcons, ← append_assoc]
    exact ih (written ++ i.bytes)

def negotiation (selected : String) (value : Text → Text) (size : Nat × Nat × Nat) (enableH264 : Bool)
    (args : Instruction) : List Instruction :=
  word "select" [selected] :: (handshakeInstructions size enableH264 ++ [⟨"connect", args.args.map value⟩])

theorem writeAll_of_nil (reads : List (Except String Bytes)) (written : Bytes) (i : Instruction) :
    Stream.writeAll ⟨reads, [], written⟩ i = .ok ⟨reads, [], written ++ i.bytes⟩ := rfl

variable {env : Env} {i : Instruction} {rest : List (Except String Bytes)} {reads done : List Bytes} {r : Bytes}

theorem readInstruction_eq_ok_iff {s s' : Stream} : readInstruction env s = .ok (i, s') ↔
      ∃ rest, readLoop env new s.reads = (.ok i, rest) ∧ s' = { s with reads := rest } := by
  unfold readInstruction
  cases readLoop env new s.reads with
  | mk result rest =>
    cases result with
    | error e => simp
    | ok j => simp [eq_comm]

theorem negotiate_eq_ok_iff {selected argsContext readyContext : String} {value : Text → Text}
    {size : Nat × Nat × Nat} {enableH264 : Bool} {reads : List (Except String Bytes)} {written : Bytes}
    {ready : Instruction} {s : Stream} :
    negotiate env selected argsContext readyContext value size enableH264 ⟨reads, [], written⟩ = .ok (ready, s) ↔
      ∃ args mid rest, readLoop env new reads = (.ok args, mid) ∧ args.opcode = argsOpcode ∧
        readLoop env new mid = (.ok ready, rest) ∧ ready.opcode = readyOpcode ∧
        s = ⟨rest, [], written ++ streamBytes (negotiation selected value size enableH264 args)⟩ := by
  have hwritten : ∀ args : Instruction, written ++ (word "select" [selected]).bytes ++
      streamBytes (handshakeInstructions size enableH264) ++ Instruction.bytes ⟨"connect", args.args.map value⟩ =
      written ++ streamBytes (negotiation selected value size enableH264 args) := by
    intro args
    simp [negotiation, streamBytes]
  rw [negotiate, writeAll_of_nil, bind_eq_ok_iff]
  constructor
  · rintro ⟨-, ⟨rfl⟩, hok⟩
    obtain ⟨⟨args, s₁⟩, hread, hok⟩ := bind_eq_ok_iff.mp hok
    obtain ⟨mid, hfirst, rfl⟩ := readInstruction_eq_ok_iff.mp hread
    dsimp only at hok
    split at hok
    · rename_i hargs
      rw [sendHandshake, foldlM_writeAll, bind_eq_ok_iff] at hok
      obtain ⟨-, ⟨rfl⟩, hok⟩ := hok
      rw [writeAll_of_nil, bind_eq_ok_iff] at hok
      obtain ⟨-, ⟨rfl⟩, hok⟩ := hok
      obtain ⟨⟨answer, s₂⟩, hread, hok⟩ := bind_eq_ok_iff.mp hok
      obtain ⟨rest, hsecond, rfl⟩ := readInstruction_eq_ok_iff.mp hread
      dsimp only at hok
      split at hok
      · rename_i hready
        cases hok
        exact ⟨args, mid, rest, hfirst, hargs, hsecond, hready, by rw [hwritten]⟩
      · cases hok
    · cases hok
  · rintro ⟨args, mid, rest, hfirst, hargs, hsecond, hready, rfl⟩
    refine ⟨_, rfl, bind_eq_ok_iff.mpr ⟨(args, _), readInstruction_eq_ok_iff.mpr ⟨mid, hfirst, rfl⟩, ?_⟩⟩
    dsimp only
    rw [if_pos hargs, sendHandshake, foldlM_writeAll]
    refine bind_eq_ok_iff.mpr ⟨_, rfl, ?_⟩
    rw [writeAll_of_nil]
    refine bind_eq_ok_iff.mpr ⟨_, rfl, ?_⟩
    refine bind_eq_ok_iff.mpr ⟨(ready, _), readInstruction_eq_ok_iff.mpr ⟨rest, hsecond, rfl⟩, ?_⟩
    dsimp only
    rw [if_pos hready, ← hwritten]
    rfl

theorem connectAndHandshake_reads_iff {params : ConnectionParams} {reads : List (Except String Bytes)} :
    (∃ s connectionId, connectAndHandshake env params ⟨reads, [], []⟩ = .ok (s, connectionId) ∧ s.reads = rest) ↔
      ∃ args ready mid, readLoop env new reads = (.ok args, mid) ∧ args.opcode = argsOpcode ∧
        readLoop env new mid = (.ok ready, rest) ∧ ready.opcode = readyOpcode := by
  unfold connectAndHandshake
  constructor
  · rintro ⟨s, connectionId, hok, rfl⟩
    obtain ⟨⟨ready, s₁⟩, hnegotiate, hok⟩ := bind_eq_ok_iff.mp hok
    obtain ⟨args, mid, rest, hfirst, hargs, hsecond, hready, rfl⟩ := negotiate_eq_ok_iff.mp hnegotiate
    have hreads : s.reads = rest := by
      cases params with
      | ssh p =>
        obtain ⟨s₂, hwrite, hok⟩ := bind_eq_ok_iff.mp hok
        rw [writeAll_of_nil] at hwrite
        obtain ⟨rfl, -⟩ := Prod.mk.inj (Except.ok.inj hok)
        rw [← Except.ok.inj hwrite]
      | vnc | rdp | spice =>
        obtain ⟨rfl, -⟩ := Prod.mk.inj (Except.ok.inj hok)
        rfl
    rw [hreads]
    exact ⟨args, ready, mid, hfirst, hargs, hsecond, hready⟩
  · rintro ⟨args, ready, mid, hfirst, hargs, hsecond, hready⟩
    cases params with
    | ssh | vnc | rdp | spice =>
      refine ⟨_, _, bind_eq_ok_iff.mpr ⟨(ready, _), negotiate_eq_ok_iff.mpr
        ⟨args, mid, rest, hfirst, hargs, hsecond, hready, rfl⟩, rfl⟩, ?_⟩
      rfl

/-! ### One instruction -/

/-- What a fresh parser holds after reads that complete no instruction: all of them, or what has come since they
last went beyond its limit. -/
def gathered (reads : List Bytes) : Bytes :=
  reads.foldl (fun buffer r => if maxProtocolBufferLen < (buffer ++ r).length then [] else buffer ++ r) []

theorem gathered_concat (reads : List Bytes) (r : Bytes) : gathered (reads ++ [r]) =
      if maxProtocolBufferLen < (gathered reads ++ r).length then [] else gathered reads ++ r := by
  rw [gathered, foldl_append]
  rfl

/-- No instruction is complete after any of the reads. -/
def Pending (reads : List Bytes) : Prop := ∀ part, part <+: reads → ';'.toUInt8 ∉ gathered part

/-- With the last of the reads and not before, a fresh parser comes to the end of an instruction, which is this one. -/
def Completes (reads : List Bytes) (i : Instruction) : Prop :=
  ∃ before last piece rest, reads = before ++ [last] ∧ (∀ r ∈ reads, (Utf8.decode r).isSome = true) ∧ Pending before ∧
    (gathered before ++ last).length ≤ maxProtocolBufferLen ∧
    splitOnce ';'.toUInt8 (gathered before ++ last) = some (piece, rest) ∧ parsePiece piece = .ok i

theorem pending_nil : Pending [] := by
  intro part hpart
  rw [prefix_nil.mp hpart]
  exact not_mem_nil

theorem Pending.concat {reads : List Bytes} {r : Bytes} (h : Pending reads)
    (hr : ';'.toUInt8 ∉ gathered (reads ++ [r])) : Pending (reads ++ [r]) := by
  intro part hpart
  rcases prefix_concat_iff.mp hpart with rfl | hpart
  · exact hr
  · exact h part hpart

theorem not_completes_of_mem {more : List Bytes} (hmore : more ≠ [])
    (hmem : ';'.toUInt8 ∈ gathered reads) : ¬Completes (reads ++ more) i := by
  rintro ⟨before, last, piece, rest, hreads, -, hpending, -⟩
  have hbefore : reads <+: before := by
    rcases eq_nil_or_concat more with rfl | ⟨init, final, rfl⟩
    · exact absurd rfl hmore
    · rw [concat_eq_append, ← append_assoc] at hreads
      obtain ⟨rfl, -⟩ := append_inj' hreads rfl
      exact prefix_append reads init
  exact hpending reads hbefore hmem

theorem exists_used_cons {C : List Bytes → Prop} :
    (∃ used left, r :: reads = used ++ left ∧ used ≠ [] ∧ rest = left.map .ok ∧ C (done ++ used)) ↔
      (rest = reads.map .ok ∧ C (done ++ [r])) ∨
        ∃ used left, reads = used ++ left ∧ used ≠ [] ∧ rest = left.map .ok ∧ C (done ++ [r] ++ used) := by
  constructor
  · rintro ⟨used, left, hused, hne, rfl, hC⟩
    cases used with
    | nil => exact absurd rfl hne
    | cons head tail =>
      cases hused
      cases tail with
      | nil => exact .inl ⟨rfl, hC⟩
      | cons next tail =>
        right
        refine ⟨next :: tail, left, rfl, by simp, rfl, ?_⟩
        simpa using hC
  · rintro (⟨rfl, hC⟩ | ⟨used, left, rfl, hne, rfl, hC⟩)
    · exact ⟨[r], reads, rfl, by simp, rfl, hC⟩
    · exact ⟨r :: used, left, rfl, by simp, rfl, by simpa using hC⟩

theorem completes_concat (h : Completes (done ++ [r]) i) : (gathered done ++ r).length ≤ maxProtocolBufferLen ∧
      ∃ piece rest, splitOnce ';'.toUInt8 (gathered done ++ r) = some (piece, rest) ∧ parsePiece piece = .ok i := by
  obtain ⟨before, last, piece, rest, hreads, -, -, hfits, hsplit, hparse⟩ := h
  obtain ⟨rfl, hlast⟩ := append_inj' hreads rfl
  obtain rfl : r = last := by simpa using hlast
  exact ⟨hfits, piece, rest, hsplit, hparse⟩

theorem not_completes_of_decode (hdecode : Utf8.decode r = none) (hmem : r ∈ reads) : ¬Completes reads i := by
  rintro ⟨before, last, piece, rest, -, hwhole, -⟩
  have hsome := hwhole r hmem
  rw [hdecode] at hsome
  cases hsome

theorem not_completes_of_not_mem (hmem : ';'.toUInt8 ∉ gathered done ++ r) : ¬Completes (done ++ [r]) i := by
  intro hcompletes
  obtain ⟨-, piece, tail, hsplit, -⟩ := completes_concat hcompletes
  rw [splitOnce_eq_none.mpr hmem] at hsplit
  cases hsplit

theorem completes_concat_iff {piece tail : Bytes} (hpending : Pending done)
    (hwhole : ∀ r' ∈ done ++ [r], (Utf8.decode r').isSome)
    (hfits : (gathered done ++ r).length ≤ maxProtocolBufferLen)
    (hsplit : splitOnce ';'.toUInt8 (gathered done ++ r) = some (piece, tail)) :
    Completes (done ++ [r]) i ↔ parsePiece piece = .ok i := by
  constructor
  · intro hcompletes
    obtain ⟨-, piece', tail', hsome, hparse⟩ := completes_concat hcompletes
    rw [hsplit] at hsome
    cases hsome
    exact hparse
  · intro hparse
    exact ⟨done, r, piece, tail, rfl, hwhole, hpending, hfits, hsplit, hparse⟩

/-- **One instruction.** The loop that has taken some reads without result returns an instruction exactly if these
and some of the next reads complete it, and leaves the others. -/
theorem readLoop_eq_ok_iff
    (hpending : Pending done) (hdone : ∀ r ∈ done, (Utf8.decode r).isSome) (hreads : [] ∉ reads) :
    readLoop env ⟨gathered done⟩ (reads.map .ok) = (.ok i, rest) ↔
      ∃ used left, reads = used ++ left ∧ used ≠ [] ∧ rest = left.map .ok ∧ Completes (done ++ used) i := by
  induction reads generalizing done with
  | nil =>
    constructor
    · intro h
      cases h
    · rintro ⟨used, left, hused, hne, -⟩
      exact absurd (append_eq_nil_iff.mp hused.symm).1 hne
  | cons r reads ih =>
    rw [exists_used_cons (C := fun used => Completes used i)]
    have hr : r ≠ [] := fun h => hreads (h ▸ mem_cons_self)
    have hrest : [] ∉ reads := fun h => hreads (mem_cons_of_mem _ h)
    simp only [map_cons, readLoop, if_neg hr]
    cases hdecode : Utf8.decode r with
    | none =>
      constructor
      · intro h
        cases h
      · rintro (⟨-, hcompletes⟩ | ⟨used, left, -, -, -, hcompletes⟩)
        · exact absurd hcompletes (not_completes_of_decode hdecode (by simp))
        · exact absurd hcompletes (not_completes_of_decode hdecode (by simp))
    | some data =>
      have hencode : Utf8.encode data = r := Utf8.encode_of_decode hdecode
      have hdone' : ∀ r' ∈ done ++ [r], (Utf8.decode r').isSome := by
        intro r' hr'
        rcases mem_append.mp hr' with hr' | hr'
        · exact hdone r' hr'
        · rw [mem_singleton.mp hr', hdecode]
          rfl
      simp only [receive, hencode]
      by_cases hover : maxProtocolBufferLen < (gathered done ++ r).length
      · -- the parser forgets all it has
        have hgathered : gathered (done ++ [r]) = [] := by rw [gathered_concat, if_pos hover]
        have hnot : ¬Completes (done ++ [r]) i := fun h => absurd (completes_concat h).1 (Nat.not_le.mpr hover)
        have hnext := ih (hpending.concat (by rw [hgathered]; exact not_mem_nil)) hdone' hrest
        rw [hgathered] at hnext
        simp only [if_pos hover, hnext, hnot, and_false, false_or]
      · have hgathered : gathered (done ++ [r]) = gathered done ++ r := by rw [gathered_concat, if_neg hover]
        simp only [if_neg hover]
        cases hsplit : splitOnce ';'.toUInt8 (gathered done ++ r) with
        | none =>
          have hmem := splitOnce_eq_none.mp hsplit
          have hnot : ¬Completes (done ++ [r]) i := not_completes_of_not_mem hmem
          have hnext := ih (hpending.concat (hgathered ▸ hmem)) hdone' hrest
          rw [hgathered] at hnext
          simp only [drain_of_none hsplit, hnext, hnot, and_false, false_or]
        | some split =>
          obtain ⟨piece, tail⟩ := split
          have hmem : ';'.toUInt8 ∈ gathered (done ++ [r]) := by
            rw [hgathered, (splitOnce_eq_some.mp hsplit).1]
            exact mem_append_right _ mem_cons_self
          have hnone : ¬∃ used left, reads = used ++ left ∧ used ≠ [] ∧ rest = left.map .ok ∧
              Completes (done ++ [r] ++ used) i := by
            rintro ⟨used, left, -, hne, -, hcompletes⟩
            exact not_completes_of_mem hne hmem hcompletes
          have hone : Completes (done ++ [r]) i ↔ parsePiece piece = .ok i :=
            completes_concat_iff hpending hdone' (Nat.not_lt.mp hover) hsplit
          simp only [drain_of_some hsplit, hone, hnone, or_false]
          cases hparse : parsePiece piece with
          | error e => simp
          | ok j => simp [eq_comm, and_comm]

theorem gathered_eq_flatten (h : reads.flatten.length ≤ maxProtocolBufferLen) : gathered reads = reads.flatten := by
  induction reads using List.reverseRecOn with
  | nil => rfl
  | append_singleton reads r ih =>
    rw [flatten_append, flatten_singleton] at h ⊢
    have hbefore : gathered reads = reads.flatten := by
      apply ih
      rw [length_append] at h
      omega
    rw [gathered_concat, hbefore, if_neg (Nat.not_lt.mpr h)]

theorem completes_bytes (hbytes : reads.flatten = i.bytes) (hreads : [] ∉ reads)
    (hwhole : ∀ r ∈ reads, (Utf8.decode r).isSome) (hsemi : ∀ s ∈ i.elements, ';' ∉ s)
    (hsize : i.bytes.length ≤ maxProtocolBufferLen) : Completes reads i := by
  have hbody : ';' ∉ i.body := not_mem_body hsemi
  have hpiece : ';'.toUInt8 ∉ Utf8.encode i.body := not_mem_encode hbody
  have hshape : i.bytes = Utf8.encode i.body ++ [';'.toUInt8] := by
    have hcons := streamBytes_cons i []
    simpa [streamBytes] using hcons
  have hlen : ∀ s ∈ i.elements, s.length ≤ usizeMax := by
    intro s hs
    have hle : s.length ≤ (streamBytes [i]).length := element_length_le_streamBytes mem_cons_self hs
    have hstream : streamBytes [i] = i.bytes := by simp [streamBytes]
    rw [hstream] at hle
    exact (hle.trans hsize).trans (by decide)
  rcases eq_nil_or_concat reads with rfl | ⟨before, last, hconcat⟩
  · exact absurd hbytes.symm (bytes_ne_nil i)
  · rw [concat_eq_append] at hconcat
    subst hconcat
    rw [flatten_append, flatten_singleton] at hbytes
    have hbefore : before.flatten.length ≤ maxProtocolBufferLen := by
      rw [← hbytes, length_append] at hsize
      omega
    -- the `;` is the last byte, and the last read is not empty
    have hinit : before.flatten <+: Utf8.encode i.body := by
      rw [hshape] at hbytes
      obtain ⟨init, byte, rfl⟩ : ∃ init byte, last = init ++ [byte] := by
        rcases eq_nil_or_concat last with rfl | ⟨init, byte, rfl⟩
        · exact absurd (by simp) hreads
        · exact ⟨init, byte, concat_eq_append⟩
      rw [← append_assoc] at hbytes
      rw [← (append_inj' hbytes rfl).1]
      exact prefix_append _ _
    have hpending : Pending before := by
      intro part hpart hmem
      have hflat : part.flatten <+: before.flatten := hpart.flatten
      rw [gathered_eq_flatten (hflat.length_le.trans hbefore)] at hmem
      exact hpiece ((hflat.trans hinit).subset hmem)
    refine ⟨before, last, Utf8.encode i.body, [], rfl, hwhole, hpending, ?_, ?_, ?_⟩
    · rw [gathered_eq_flatten hbefore, hbytes]
      exact hsize
    · rw [gathered_eq_flatten hbefore, hbytes, hshape]
      exact splitOnce_append hpiece []
    · rw [parsePiece, Utf8.decode_encode]
      exact parse_body hlen hbody

/-- The handshake succeeds, and the stream that it returns yields these bytes. -/
def Yields (env : Env) (params : ConnectionParams) (reads : List Bytes) (bytes : Bytes) : Prop :=
  ∃ s connectionId, connectAndHandshake env params ⟨reads.map .ok, [], []⟩ = .ok (s, connectionId) ∧
    ∃ left : List Bytes, s.reads = left.map .ok ∧ left.flatten = bytes

/-- No read of the handshake reaches over the end of the ready instruction: some reads make up the bytes of the two
instructions, of which the first ones complete an args instruction and the others a ready one. -/
def ReadApart (args ready : Instruction) (reads : List Bytes) : Prop :=
  ∃ first second left args' ready', reads = first ++ second ++ left ∧
    (first ++ second).flatten = args.bytes ++ ready.bytes ∧ Completes first args' ∧ args'.opcode = argsOpcode ∧
    Completes second ready' ∧ ready'.opcode = readyOpcode

theorem Completes.ne_nil (h : Completes reads i) : reads ≠ [] := by
  obtain ⟨before, last, -, -, rfl, -⟩ := h
  simp

theorem readLoop_new_iff (hreads : [] ∉ reads) : readLoop env new (reads.map .ok) = (.ok i, rest) ↔
      ∃ used left, reads = used ++ left ∧ rest = left.map .ok ∧ Completes used i := by
  have hloop : readLoop env ⟨gathered []⟩ (reads.map .ok) = (.ok i, rest) ↔
      ∃ used left, reads = used ++ left ∧ used ≠ [] ∧ rest = left.map .ok ∧ Completes ([] ++ used) i :=
    readLoop_eq_ok_iff pending_nil (by simp) hreads
  refine hloop.trans ?_
  constructor
  · rintro ⟨used, left, hused, -, hrest, hcompletes⟩
    exact ⟨used, left, hused, hrest, hcompletes⟩
  · rintro ⟨used, left, hused, hrest, hcompletes⟩
    exact ⟨used, left, hused, hcompletes.ne_nil, hrest, hcompletes⟩

/-- **The handshake loses nothing** exactly if it is read apart, for every cut of a stream that consists of two
instructions and whatever follows them. -/
theorem handshake_yields_rest_iff (env : Env) (params : ConnectionParams) (args ready : Instruction)
    (following : List Instruction) (reads : List Bytes) (hreads : [] ∉ reads)
    (hcut : reads.flatten = streamBytes (args :: ready :: following)) :
    Yields env params reads (streamBytes following) ↔ ReadApart args ready reads := by
  have hstream : streamBytes (args :: ready :: following) = args.bytes ++ ready.bytes ++ streamBytes following := by
    simp [streamBytes]
  rw [hstream] at hcut
  constructor
  · rintro ⟨s, connectionId, hok, left, hleft, hyields⟩
    obtain ⟨args', ready', mid, hfirst, hargs, hsecond, hready⟩ :=
      connectAndHandshake_reads_iff.mp ⟨s, connectionId, hok, hleft⟩
    obtain ⟨first, rest, rfl, rfl, hcompletes⟩ := (readLoop_new_iff hreads).mp hfirst
    have hrest : [] ∉ rest := fun h => hreads (mem_append_right _ h)
    obtain ⟨second, left', rfl, heq, hcompletes'⟩ := (readLoop_new_iff hrest).mp hsecond
    obtain rfl : left = left' := by
      apply map_injective_iff.mpr _ heq
      intro a b hab
      exact Except.ok.inj hab
    refine ⟨first, second, left, args', ready', by rw [append_assoc], ?_, hcompletes, hargs, hcompletes', hready⟩
    rw [← append_assoc, flatten_append, hyields] at hcut
    exact append_cancel_right hcut
  · rintro ⟨first, second, left, args', ready', rfl, hbytes, hcompletes, hargs, hcompletes', hready⟩
    rw [append_assoc] at hreads
    have hrest : [] ∉ second ++ left := fun h => hreads (mem_append_right _ h)
    have hfirst : readLoop env new ((first ++ second ++ left).map .ok) = (.ok args', (second ++ left).map .ok) := by
      rw [append_assoc]
      exact (readLoop_new_iff hreads).mpr ⟨first, second ++ left, rfl, rfl, hcompletes⟩
    have hsecond : readLoop env new ((second ++ left).map .ok) = (.ok ready', left.map .ok) :=
      (readLoop_new_iff hrest).mpr ⟨second, left, rfl, rfl, hcompletes'⟩
    obtain ⟨s, connectionId, hok, hleft⟩ :=
      connectAndHandshake_reads_iff.mpr ⟨args', ready', _, hfirst, hargs, hsecond, hready⟩
    refine ⟨s, connectionId, hok, left, hleft, ?_⟩
    rw [flatten_append, hbytes] at hcut
    exact append_cancel_left hcut

def plainEnv : Env where
  utf8Error _ := "incomplete utf-8 byte sequence from index 7"
  debugArgs _ := "[]"

def vncParams : ConnectionParams := .vnc ⟨"h", 5900, none, none, 800, 600, 96, false, false⟩

def bareArgs : Instruction := ⟨argsOpcode, []⟩

def readyA : Instruction := ⟨readyOpcode, ["a"]⟩

def readyUmlaut : Instruction := ⟨readyOpcode, ["ä"]⟩

def syncZero : Instruction := ⟨"sync", ["0"]⟩

theorem handshake_yields_sync :
    Yields plainEnv vncParams [bareArgs.bytes, readyA.bytes, syncZero.bytes] (streamBytes [syncZero]) := by
  have hwhole : ∀ i : Instruction, ∀ r ∈ [i.bytes], (Utf8.decode r).isSome = true := by
    intro i r hr
    rw [mem_singleton.mp hr, Instruction.bytes, Utf8.decode_encode]
    rfl
  apply (handshake_yields_rest_iff plainEnv vncParams bareArgs readyA [syncZero]
    [bareArgs.bytes, readyA.bytes, syncZero.bytes] (by decide) (by decide)).mpr
  refine ⟨[bareArgs.bytes], [readyA.bytes], [syncZero.bytes], bareArgs, readyA, rfl, by decide, ?_, rfl, ?_, rfl⟩
  · exact completes_bytes (by simp) (by decide) (hwhole bareArgs) (by decide) (by decide)
  · exact completes_bytes (by simp) (by decide) (hwhole readyA) (by decide) (by decide)

/-- The ready instruction comes with the next one in one read: the handshake succeeds and the next one is lost. A read
that ends inside a character of the ready instruction fails it. -/
theorem handshake_drops_sync :
    [bareArgs.bytes, readyA.bytes ++ syncZero.bytes].flatten = streamBytes [bareArgs, readyA, syncZero] ∧
      ¬Yields plainEnv vncParams [bareArgs.bytes, readyA.bytes ++ syncZero.bytes] (streamBytes [syncZero]) ∧
      (connectAndHandshake plainEnv vncParams
        ⟨[.ok bareArgs.bytes, .ok (readyA.bytes ++ syncZero.bytes)], [], []⟩).toOption.map (·.1.reads) = some [] ∧
      [bareArgs.bytes, readyUmlaut.bytes.take 11, readyUmlaut.bytes.drop 11].flatten =
        streamBytes [bareArgs, readyUmlaut] ∧
      ¬Yields plainEnv vncParams [bareArgs.bytes, readyUmlaut.bytes.take 11, readyUmlaut.bytes.drop 11] [] := by
  have hdropped : (connectAndHandshake plainEnv vncParams
      ⟨[.ok bareArgs.bytes, .ok (readyA.bytes ++ syncZero.bytes)], [], []⟩).toOption.map (·.1.reads) = some [] := by
    decide +kernel
  have hfailed : (connectAndHandshake plainEnv vncParams
      ⟨[.ok bareArgs.bytes, .ok (readyUmlaut.bytes.take 11), .ok (readyUmlaut.bytes.drop 11)], [], []⟩).toOption.map
        (·.1.reads) = none := by
    decide +kernel
  refine ⟨by decide, ?_, hdropped, by decide, ?_⟩
  · rintro ⟨s, connectionId, hok, left, hleft, hbytes⟩
    have hnone : some s.reads = some [] := by
      rw [← hdropped]
      exact (congrArg (fun result => result.toOption.map (·.1.reads)) hok).symm
    rw [Option.some.inj hnone, eq_comm, map_eq_nil_iff] at hleft
    subst hleft
    exact absurd hbytes (by decide)
  · rintro ⟨s, connectionId, hok, -⟩
    have hsome : some s.reads = none := by
      rw [← hfailed]
      exact (congrArg (fun result => result.toOption.map (·.1.reads)) hok).symm
    cases hsome

end Persea.Guacd
