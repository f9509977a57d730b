import Persea.BaseExcept
import Persea.RecordingGhash

/-! `decrypt_recording_stream`: one pass compares the tag, the other decrypts. Both collect blocks of sixteen bytes
from what the file system gives; the loop is stated once, over what is done with a block. -/

namespace Persea.Recording.Stream

open Base Base.Gcm Chunk
open List hiding Vector

abbrev Bytes := List UInt8

def gcmNonceLen : ℕ := 12
def gcmTagLen : ℕ := 16
def gcmBlock : ℕ := 16
def bufLen : ℕ := 64 * 1024
def u32Max : ℕ := 2 ^ 32 - 1

/-- What the file system answers: the content of the file or why it does not open, and to each `read` an
error or how many bytes it has at hand. -/
structure FileSystem where
  openFile : Except String Bytes
  answer : ℕ → Except String ℕ

structure Handle where
  content : Bytes
  pos : ℕ
  reads : ℕ
deriving DecidableEq, Repr

def Handle.seek (file : Handle) (pos : ℕ) : Handle := { file with pos := pos }

variable (fs : FileSystem)

def Handle.read (file : Handle) (want : ℕ) : Except String (Bytes × Handle) :=
  (fs.answer file.reads).map fun n =>
    let got := (file.content.drop file.pos).take (min want (max 1 n))
    (got, { file with pos := file.pos + got.length, reads := file.reads + 1 })

def Handle.readExact (file : Handle) (want : ℕ) : Except String (Bytes × Handle) :=
  if want = 0 then .ok ([], file)
  else
    match file.read fs want with
    | .error e => .error e
    | .ok ([], _) => .error "failed to fill whole buffer"
    | .ok (b :: got, file) =>
      match Handle.readExact file (want - (got.length + 1)) with
      | .error e => .error e
      | .ok (rest, file) => .ok (b :: got ++ rest, file)
termination_by want

@[ext]
structure Pending where
  bytes : Bytes
  not_full : bytes.length < gcmBlock

def Pending.empty : Pending := ⟨[], by decide⟩

section Loops

variable {σ ε : Type}

/-- The inner loop of both passes: the chunk fills the pending block, and each full block is handed on. -/
def feed (onBlock : σ → Block → Except ε σ) (s : σ) (pending : Pending) (chunk : Bytes) : Except ε (σ × Pending) :=
  if hchunk : chunk = [] then .ok (s, pending)
  else
    let filled := pending.bytes ++ chunk.take (min chunk.length (gcmBlock - pending.bytes.length))
    if hfull : filled.length = gcmBlock then
      match onBlock s (padBlock filled) with
      | .error e => .error e
      | .ok s => feed onBlock s Pending.empty (chunk.drop (min chunk.length (gcmBlock - pending.bytes.length)))
    else
      feed onBlock s ⟨filled, by
        have hpending := pending.not_full
        simp only [filled, length_append, length_take] at hfull ⊢
        omega⟩ (chunk.drop (min chunk.length (gcmBlock - pending.bytes.length)))
termination_by chunk.length
decreasing_by
  all_goals
    have hpos := length_pos_iff.mpr hchunk
    have hpending := pending.not_full
    rw [length_drop]
    omega

/-- The outer loop of both passes: `remaining` bytes are read, 64 KiB at a time at most. -/
def readLoop (fail : σ → String → ε) (onBlock : σ → Block → Except ε σ) (file : Handle) (remaining : ℕ) (s : σ)
    (pending : Pending) : Except ε (σ × Pending × Handle) :=
  if remaining = 0 then .ok (s, pending, file)
  else
    match file.read fs (min bufLen remaining) with
    | .error e => .error (fail s e)
    | .ok ([], _) => .error (fail s "unexpected end of recording")
    | .ok (b :: got, file) =>
      match feed onBlock s pending (b :: got) with
      | .error e => .error e
      | .ok (s, pending) => readLoop fail onBlock file (remaining - (got.length + 1)) s pending
termination_by remaining

end Loops

section Passes

variable (aes : Block → Block)

def counterBlock (nonce : Vector UInt8 12) (counter : ℕ) : Block := nonce ++ beBytes 4 (BitVec.ofNat 32 counter)

def lengthBlock (ctLen : ℕ) : Block := Vector.replicate 8 (0 : UInt8) ++ beBytes 8 (BitVec.ofNat 64 (ctLen * 8))

def gcmExpectedTag (file : Handle) (nonce : Vector UInt8 12) (ctLen : ℕ) : Except String (Block × Handle) :=
  let hBlock := aes (Vector.replicate 16 0)
  let tagMask := aes (counterBlock nonce 1)
  match readLoop fs (fun _ e => e) (fun ghash block => .ok (Ghash.updateBlock ghash block)) file ctLen
      (Ghash.new hBlock) Pending.empty with
  | .error e => .error e
  | .ok (ghash, pending, file) =>
    let ghash := if 0 < pending.bytes.length then ghash.updateBlock (padBlock pending.bytes) else ghash
    .ok (Vector.zipWith (· ^^^ ·) (ghash.updateBlock (lengthBlock ctLen)).finalize tagMask, file)

/-- How the decryption ends early: with an error, or with the panic of an overflow. -/
inductive Failure where
  | refused (message : String)
  | overflow
deriving DecidableEq, Repr

structure Decrypting where
  counter : ℕ
  out : Bytes
  emitted : List Bytes
deriving DecidableEq, Repr

/-- What `emit` makes of a chunk, after the chunks before it. -/
abbrev Emit := List Bytes → Bytes → Except String Unit

variable (emit : Emit)

def emitChunk (emitted : List Bytes) (chunk : Bytes) : Except (List Bytes × Failure) (List Bytes) :=
  match emit emitted chunk with
  | .error e => .error (emitted, .refused e)
  | .ok () => .ok (emitted ++ [chunk])

def decryptBlock (nonce : Vector UInt8 12) (s : Decrypting) (block : Block) :
    Except (List Bytes × Failure) Decrypting :=
  let keystream := aes (counterBlock nonce s.counter)
  let out := s.out ++ (Vector.zipWith (· ^^^ ·) block keystream).toList
  -- `counter += 1`
  if u32Max < s.counter + 1 then .error (s.emitted, .overflow)
  else if out.length = bufLen then
    match emitChunk emit s.emitted out with
    | .error e => .error e
    | .ok emitted => .ok ⟨s.counter + 1, [], emitted⟩
  else .ok ⟨s.counter + 1, out, s.emitted⟩

def emitBuffer (s : Decrypting) : Except (List Bytes × Failure) (List Bytes) :=
  if 0 < s.out.length then emitChunk emit s.emitted s.out else .ok s.emitted

def finishDecrypting (nonce : Vector UInt8 12) (s : Decrypting) (pending : Pending) :
    Except (List Bytes × Failure) (List Bytes) :=
  match emitBuffer emit s with
  | .error e => .error e
  | .ok emitted =>
    if 0 < pending.bytes.length then
      let keystream := aes (counterBlock nonce s.counter)
      emitChunk emit emitted (List.zipWith (· ^^^ ·) pending.bytes keystream.toList)
    else .ok emitted

end Passes

structure Env where
  hexDecode : String → Except String Bytes
  aes256 : Vector UInt8 32 → Block → Block

variable (env : Env) (emit : Emit)

def keyOf (keyHex : String) : Except String (Vector UInt8 32) :=
  match env.hexDecode keyHex with
  | .error e => .error ("invalid encryption key: " ++ e)
  | .ok bytes =>
    if h : bytes.toArray.size = 32 then .ok ⟨bytes.toArray, h⟩ else .error "encryption key must be 32 bytes"

def decryptPass (aes : Block → Block) (nonce : Vector UInt8 12) (file : Handle) (ctLen : ℕ) :
    Except (List Bytes × Failure) (List Bytes) :=
  match readLoop fs (fun s e => (s.emitted, Failure.refused e)) (decryptBlock aes emit nonce)
      (file.seek gcmNonceLen) ctLen ⟨2, [], []⟩ Pending.empty with
  | .error e => .error e
  | .ok (s, pending, _) => finishDecrypting aes emit nonce s pending

def refuse {α : Type} (x : Except String α) : Except (List Bytes × Failure) α := x.mapError fun e => ([], .refused e)

def ciphertextLen (fileLen : ℕ) : Except String ℕ :=
  if fileLen < gcmNonceLen + gcmTagLen then .error "recording too short to be a valid encrypted file"
  else if u32Max < (fileLen - (gcmNonceLen + gcmTagLen)) / gcmBlock + 2 then
    .error "recording exceeds the AES-GCM size limit"
  else .ok (fileLen - (gcmNonceLen + gcmTagLen))

/-- The chunks that were emitted when the decryption succeeds, or those emitted before it failed. -/
def decryptRecordingStream (keyHex : String) : Except (List Bytes × Failure) (List Bytes) := do
  let key ← refuse (keyOf env keyHex)
  let aes := env.aes256 key
  let content ← refuse fs.openFile
  let ctLen ← refuse (ciphertextLen content.length)
  let (nonce, file) ← refuse (Handle.readExact fs ⟨content, 0, 0⟩ gcmNonceLen)
  let (storedTag, file) ← refuse (Handle.readExact fs (file.seek (content.length - gcmTagLen)) gcmTagLen)
  let nonce : Vector UInt8 12 := Vector.ofFn fun i => nonce.getD i.val 0
  let (expected, file) ← refuse (gcmExpectedTag fs aes (file.seek gcmNonceLen) nonce ctLen)
  if expected.toList = storedTag then decryptPass fs emit aes nonce file ctLen
  else .error ([], .refused "recording failed authentication (tag mismatch)")

def FileSystem.Reads (fs : FileSystem) : Prop := ∀ k, ∃ n, fs.answer k = .ok n

variable {fs}

theorem read_ok (hreads : fs.Reads) (file : Handle) (want : ℕ) (hwant : 0 < want)
    (hpos : file.pos < file.content.length) :
    ∃ size reads, 0 < size ∧ size ≤ want ∧ file.pos + size ≤ file.content.length ∧ file.read fs want =
        .ok ((file.content.drop file.pos).take size, ⟨file.content, file.pos + size, reads⟩) := by
  obtain ⟨n, hn⟩ := hreads file.reads
  have hlen : (file.content.drop file.pos).length = file.content.length - file.pos := length_drop
  refine ⟨min (min want (max 1 n)) (file.content.length - file.pos), file.reads + 1, by omega, by omega, by omega, ?_⟩
  have hgot : (file.content.drop file.pos).take (min want (max 1 n)) =
      (file.content.drop file.pos).take (min (min want (max 1 n)) (file.content.length - file.pos)) := by
    conv_rhs => rw [← hlen, ← take_take, take_length]
  have hsize : min (min (min want (max 1 n)) (file.content.length - file.pos)) (file.content.length - file.pos) =
      min (min want (max 1 n)) (file.content.length - file.pos) := by
    omega
  rw [Handle.read, hn, Except.map]
  simp only [hgot, length_take, hlen, hsize]

theorem readExact_ok (hreads : fs.Reads) (file : Handle) (want : ℕ)
    (hpos : file.pos + want ≤ file.content.length) :
    ∃ reads, file.readExact fs want =
      .ok ((file.content.drop file.pos).take want, ⟨file.content, file.pos + want, reads⟩) := by
  induction want using Nat.strong_induction_on generalizing file with
  | _ want ih =>
    rw [Handle.readExact]
    by_cases hzero : want = 0
    · exact ⟨file.reads, by rw [if_pos hzero, hzero, take_zero, Nat.add_zero]⟩
    · obtain ⟨size, reads, hsize, hwant, hend, hread⟩ :=
        read_ok hreads file want (Nat.pos_of_ne_zero hzero) (by omega)
      have hlen : ((file.content.drop file.pos).take size).length = size := by
        rw [length_take, length_drop]
        omega
      obtain ⟨reads', hrest⟩ := ih (want - size) (by omega) ⟨file.content, file.pos + size, reads⟩
        (by simp only; omega)
      refine ⟨reads', ?_⟩
      rw [if_neg hzero, hread]
      cases hchunk : (file.content.drop file.pos).take size with
      | nil =>
        rw [hchunk, length_nil] at hlen
        omega
      | cons b got =>
        rw [hchunk, length_cons] at hlen
        simp only [hlen, hrest]
        rw [← hchunk, ← drop_drop, show file.pos + size + (want - size) = file.pos + want by omega,
          show want = size + (want - size) by omega, take_add, Nat.add_sub_cancel_left]

/-! ### The loops take the data block by block -/

def blocks (data : Bytes) : List Block := (wholes gcmBlock data).map padBlock

def rest (data : Bytes) : Pending := ⟨remainder gcmBlock data, remainder_length_lt (by decide) data⟩

variable (data more : Bytes) (pending : Pending)

theorem blocks_append : blocks (data ++ more) = blocks data ++ blocks ((rest data).bytes ++ more) := by
  rw [blocks, wholes_append (by decide), map_append]
  rfl

theorem rest_append : rest (data ++ more) = rest ((rest data).bytes ++ more) :=
  Pending.ext (remainder_append (by decide) data more)

variable {b ciphertext : Bytes}

theorem blocks_block_append (hb : b.length = gcmBlock) (data : Bytes) :
    blocks (b ++ data) = padBlock b :: blocks data := by
  rw [blocks, wholes_block_append (by decide) hb, map_cons]
  rfl

theorem rest_block_append (hb : b.length = gcmBlock) (data : Bytes) : rest (b ++ data) = rest data :=
  Pending.ext (remainder_block_append (by decide) hb data)

theorem blocks_pending : blocks pending.bytes = [] := by rw [blocks, wholes_of_lt pending.not_full, map_nil]

theorem rest_pending : rest pending.bytes = pending := Pending.ext (remainder_of_lt pending.not_full)

theorem empty_append : Pending.empty.bytes ++ data = data := rfl

section Loops

variable {σ ε : Type} {onBlock : σ → Block → Except ε σ}

theorem feed_eq (s : σ) (pending : Pending) (chunk : Bytes) : feed onBlock s pending chunk =
      ((blocks (pending.bytes ++ chunk)).foldlM onBlock s).map fun s => (s, rest (pending.bytes ++ chunk)) := by
  fun_induction feed onBlock s pending chunk with
  | case1 s pending =>
    rw [append_nil, blocks_pending, rest_pending]
    rfl
  | case2 s pending chunk hchunk filled hfull e hblock =>
    have hsplit : pending.bytes ++ chunk = filled ++ chunk.drop (min chunk.length (gcmBlock - pending.bytes.length)) := by
      rw [append_assoc, take_append_drop]
    rw [hsplit, blocks_block_append hfull, foldlM_cons, hblock]
    rfl
  | case3 s pending chunk hchunk filled hfull s' hblock ih =>
    have hsplit : pending.bytes ++ chunk = filled ++ chunk.drop (min chunk.length (gcmBlock - pending.bytes.length)) := by
      rw [append_assoc, take_append_drop]
    rw [hsplit, blocks_block_append hfull, rest_block_append hfull, foldlM_cons, hblock, ih]
    rfl
  | case4 s pending chunk hchunk filled hfull ih =>
    rw [ih]
    simp only [filled, append_assoc, take_append_drop]

theorem readLoop_ok (hreads : fs.Reads) (fail : σ → String → ε) (file : Handle) {remaining : ℕ} {s s' : σ}
    {pending : Pending} (hpos : file.pos + remaining ≤ file.content.length)
    (hfold : (blocks (pending.bytes ++ (file.content.drop file.pos).take remaining)).foldlM onBlock s = .ok s') :
    ∃ file' : Handle, file'.content = file.content ∧ readLoop fs fail onBlock file remaining s pending =
      .ok (s', rest (pending.bytes ++ (file.content.drop file.pos).take remaining), file') := by
  induction remaining using Nat.strong_induction_on generalizing file s pending with
  | _ remaining ih =>
    rw [readLoop]
    by_cases hzero : remaining = 0
    · rw [hzero, take_zero, append_nil, blocks_pending] at hfold
      rw [if_pos hzero, hzero, take_zero, append_nil, rest_pending, ← (Except.ok.inj hfold : s = s')]
      exact ⟨file, rfl, rfl⟩
    · obtain ⟨size, reads, hsize, hwant, hend, hread⟩ := read_ok hreads file
        (min bufLen remaining) (by simp only [bufLen]; omega) (by omega)
      have hlen : ((file.content.drop file.pos).take size).length = size := by
        rw [length_take, length_drop]
        omega
      -- what is read now, and what is left to read
      have hdata : (file.content.drop file.pos).take remaining = (file.content.drop file.pos).take size ++
            (file.content.drop (file.pos + size)).take (remaining - size) := by
        rw [← drop_drop, ← take_add, show size + (remaining - size) = remaining by omega]
      rw [hdata, ← append_assoc, blocks_append, foldlM_append, Except.bind_eq_ok_iff] at hfold
      obtain ⟨middle, hfirst, hsecond⟩ := hfold
      obtain ⟨file', hcontent, hloop⟩ := ih (remaining - size) (by omega)
        ⟨file.content, file.pos + size, reads⟩ (by simp only; omega) hsecond
      refine ⟨file', hcontent, ?_⟩
      rw [if_neg hzero, hread]
      have hfeed : feed onBlock s pending ((file.content.drop file.pos).take size) =
          .ok (middle, rest (pending.bytes ++ (file.content.drop file.pos).take size)) := by
        rw [feed_eq, hfirst]
        rfl
      rw [hdata, ← append_assoc, rest_append]
      cases hchunk : (file.content.drop file.pos).take size with
      | nil =>
        rw [hchunk, length_nil] at hlen
        omega
      | cons b got =>
        rw [hchunk] at hfeed hloop hlen
        rw [length_cons] at hlen
        simp only [hfeed, hlen]
        exact hloop

end Loops

theorem bytesOf_zero : bytesOf 0#128 = Vector.replicate 16 0 := by decide

theorem preCounter_eq (nonce : Vector UInt8 12) : preCounter nonce = blockOf (counterBlock nonce 1) := rfl

theorem bytesOf_preCounter (nonce : Vector UInt8 12) : bytesOf (preCounter nonce) = counterBlock nonce 1 :=
  bytesOf_blockOf _

theorem blockOf_lengthBlock (ctLen : ℕ) : blockOf (lengthBlock ctLen) = lengthsBlock ctLen := by
  apply BitVec.eq_of_getLsbD_eq
  intro k hk
  rw [getLsbD_blockOf _ hk, lengthBlock, lengthsBlock, BitVec.getLsbD_append, Vector.getElem_append, Nat.mul_comm]
  by_cases h : k < 64
  · rw [dif_neg (show ¬15 - k / 8 < 8 by omega), if_pos h, getLsbD_beBytes _ (by omega) (Nat.mod_lt _ (by decide)),
      show 8 * (8 - 1 - (15 - k / 8 - 8)) + k % 8 = k by omega]
  · rw [dif_pos (show 15 - k / 8 < 8 by omega), if_neg h, Vector.getElem_replicate, BitVec.getLsbD_zero]
    exact BitVec.getLsbD_zero

theorem map_blockOf_hashed (data : Bytes) :
    (blocks data ++ (if 0 < (rest data).bytes.length then [padBlock (rest data).bytes] else []) ++
      [lengthBlock data.length]).map blockOf = padBlocks data ++ [lengthsBlock data.length] := by
  have hwholes : (blocks data).map blockOf = (wholes 16 data).map fun b => blockOf (padBlock b) := by
    rw [blocks, map_map, Function.comp_def, gcmBlock]
  have hlast : (if 0 < (rest data).bytes.length then [padBlock (rest data).bytes] else []).map blockOf =
      if remainder 16 data = [] then [] else [blockOf (padBlock (remainder 16 data))] := by
    by_cases h : remainder 16 data = []
    · have hlen : (rest data).bytes.length = 0 := length_eq_zero_iff.mpr h
      rw [if_pos h, if_neg (by omega), map_nil]
    · have hlen : 0 < (rest data).bytes.length := length_pos_iff.mpr h
      rw [if_neg h, if_pos hlen, map_singleton]
      rfl
  rw [map_append, map_append, hwholes, hlast, ← padBlocks_eq, map_singleton, blockOf_lengthBlock]

theorem gcmExpectedTag_ok (hreads : fs.Reads) (aes : Block → Block) (file : Handle) (nonce : Vector UInt8 12)
    (hpos : file.pos + ciphertext.length ≤ file.content.length)
    (hdata : (file.content.drop file.pos).take ciphertext.length = ciphertext) :
    ∃ expected file', file'.content = file.content ∧
      gcmExpectedTag fs aes file nonce ciphertext.length = .ok (expected, file') ∧
      expected.toList = Gcm.tag aes nonce ciphertext := by
  have hfold : (blocks (Pending.empty.bytes ++ (file.content.drop file.pos).take ciphertext.length)).foldlM
      (fun ghash block => Except.ok (ε := String) (Ghash.updateBlock ghash block))
      (Ghash.new (aes (Vector.replicate 16 0))) =
        .ok ((blocks ciphertext).foldl Ghash.updateBlock (Ghash.new (aes (Vector.replicate 16 0)))) := by
    rw [hdata]
    exact foldlM_pure
  obtain ⟨file', hcontent, hloop⟩ := readLoop_ok hreads (fun _ e => e) file hpos hfold
  rw [hdata] at hloop
  refine ⟨_, file', hcontent, by rw [gcmExpectedTag, hloop], ?_⟩
  -- the three updates after the loop are the end of one list of blocks
  have hhash := finalize_foldl_updateBlock (aes (Vector.replicate 16 0))
    (blocks ciphertext ++ (if 0 < (rest ciphertext).bytes.length then [padBlock (rest ciphertext).bytes] else []) ++
      [lengthBlock ciphertext.length])
  rw [map_blockOf_hashed, foldl_append, foldl_append, foldl_cons, foldl_nil] at hhash
  rw [Gcm.tag, bytesOf_zero, ← hhash, gctr_block _ _ Vector.length_toList, bytesOf_preCounter, Vector.toList_zipWith]
  have hpadded : ∀ ghash : Ghash,
      (if 0 < (rest ciphertext).bytes.length then [padBlock (rest ciphertext).bytes] else []).foldl
        Ghash.updateBlock ghash =
      if 0 < (rest ciphertext).bytes.length then ghash.updateBlock (padBlock (rest ciphertext).bytes) else ghash := by
    intro ghash
    split_ifs <;> rfl
  rw [hpadded, empty_append]

/-! ### The second pass decrypts -/

theorem getLsbD_counterBlock (nonce : Vector UInt8 12) (counter : ℕ) {k : ℕ} (hk : k < 128) :
    (blockOf (counterBlock nonce counter)).getLsbD k =
      if k < 32 then (BitVec.ofNat 32 counter).getLsbD k
      else (nonce.toList.getD (15 - k / 8) 0).toBitVec.getLsbD (k % 8) := by
  rw [getLsbD_blockOf _ hk, counterBlock, Vector.getElem_append]
  by_cases h : k < 32
  · rw [dif_neg (show ¬15 - k / 8 < 12 by omega), if_pos h, getLsbD_beBytes _ (by omega) (Nat.mod_lt _ (by decide)),
      show 8 * (4 - 1 - (15 - k / 8 - 12)) + k % 8 = k by omega]
  · have hin : 15 - k / 8 < nonce.toList.length := by
      rw [Vector.length_toList]
      omega
    rw [dif_pos (show 15 - k / 8 < 12 by omega), if_neg h, getD_eq_getElem _ _ hin, Vector.getElem_toList]

theorem inc32_counterBlock (nonce : Vector UInt8 12) (counter : ℕ) :
    inc32 (blockOf (counterBlock nonce counter)) = blockOf (counterBlock nonce (counter + 1)) := by
  have hlow : (blockOf (counterBlock nonce counter)).extractLsb' 0 32 = BitVec.ofNat 32 counter := by
    apply BitVec.eq_of_getLsbD_eq
    intro k hk
    rw [BitVec.getLsbD_extractLsb', decide_eq_true hk, Bool.true_and, Nat.zero_add,
      getLsbD_counterBlock nonce counter (by omega), if_pos hk]
  apply BitVec.eq_of_getLsbD_eq
  intro k hk
  rw [inc32, hlow, BitVec.getLsbD_append, getLsbD_counterBlock nonce (counter + 1) hk]
  by_cases h : k < 32
  · rw [if_pos h, if_pos h, BitVec.ofNat_add]
  · rw [if_neg h, if_neg h, BitVec.getLsbD_extractLsb', decide_eq_true (show k - 32 < 96 by omega), Bool.true_and,
      show 32 + (k - 32) = k by omega, getLsbD_counterBlock nonce counter hk, if_neg h]

theorem toList_padBlock (hb : b.length = gcmBlock) : (padBlock b).toList = b := by
  apply ext_getElem
  · rw [Vector.length_toList, hb]
    rfl
  · intro i hi hib
    rw [Vector.getElem_toList, ← getD_eq_getElem _ 0 hib]
    exact Vector.getElem_ofFn _

section Second

variable {aes : Block → Block} {emit : Emit} {nonce : Vector UInt8 12}

def plainFrom (aes : Block → Block) (nonce : Vector UInt8 12) (counter : ℕ) (text : Bytes) : Bytes :=
  gctr aes (blockOf (counterBlock nonce counter)) text

theorem plainFrom_block_append (hb : b.length = gcmBlock) (counter : ℕ) (text : Bytes) :
    plainFrom aes nonce counter (b ++ text) = List.zipWith (· ^^^ ·) b (aes (counterBlock nonce counter)).toList ++
        plainFrom aes nonce (counter + 1) text := by
  rw [plainFrom, gctr_block_append aes _ hb, bytesOf_blockOf, inc32_counterBlock]
  rfl

def Emit.Accepts (emit : Emit) : Prop := ∀ emitted chunk, emit emitted chunk = .ok ()

theorem emitChunk_ok (hemit : emit.Accepts) (emitted : List Bytes) (chunk : Bytes) :
    emitChunk emit emitted chunk = .ok (emitted ++ [chunk]) := by
  rw [emitChunk, hemit]

def Decrypting.produced (s : Decrypting) : Bytes := s.emitted.flatten ++ s.out

variable {s : Decrypting}

section

variable (hemit : emit.Accepts)

include hemit

theorem decryptBlock_ok (hcounter : s.counter + 1 ≤ u32Max)
    (hb : b.length = gcmBlock) :
    ∃ s', decryptBlock aes emit nonce s (padBlock b) = .ok s' ∧ s'.counter = s.counter + 1 ∧
      s'.produced = s.produced ++ List.zipWith (· ^^^ ·) b (aes (counterBlock nonce s.counter)).toList := by
  have hout : (Vector.zipWith (· ^^^ ·) (padBlock b) (aes (counterBlock nonce s.counter))).toList =
      List.zipWith (· ^^^ ·) b (aes (counterBlock nonce s.counter)).toList := by
    rw [Vector.toList_zipWith, toList_padBlock hb]
  rw [decryptBlock, if_neg (by omega), emitChunk_ok hemit, hout]
  split_ifs with hfull
  · exact ⟨_, rfl, rfl, by simp [Decrypting.produced]⟩
  · exact ⟨_, rfl, rfl, by simp [Decrypting.produced]⟩

theorem foldlM_decryptBlock_ok (text : Bytes)
    (hcounter : s.counter + text.length / gcmBlock ≤ u32Max) :
    ∃ s', (blocks text).foldlM (decryptBlock aes emit nonce) s = .ok s' ∧
      s'.produced ++ plainFrom aes nonce s'.counter (rest text).bytes =
        s.produced ++ plainFrom aes nonce s.counter text := by
  induction text using block_induction (show 0 < gcmBlock by decide) generalizing s with
  | short text h =>
    refine ⟨s, ?_, ?_⟩
    · rw [blocks, wholes_of_lt h]
      rfl
    · rw [show rest text = ⟨text, h⟩ from rest_pending ⟨text, h⟩]
  | block b text hb ih =>
    have hcount := Nat.zero_le (text.length / gcmBlock)
    rw [length_block_append_div (by decide) hb] at hcounter
    have hfirst : s.counter + 1 ≤ u32Max := by omega
    obtain ⟨s', hblock, hcount, hproduced⟩ := decryptBlock_ok hemit hfirst hb
    obtain ⟨s'', hfold, hrest⟩ := ih (s := s') (by omega)
    refine ⟨s'', ?_, ?_⟩
    · rw [blocks_block_append hb, foldlM_cons, hblock]
      exact hfold
    · rw [rest_block_append hb, hrest, hproduced, hcount, plainFrom_block_append hb, append_assoc]

theorem emitBuffer_ok (s : Decrypting) :
    ∃ emitted, emitBuffer emit s = .ok emitted ∧ emitted.flatten = s.produced := by
  unfold emitBuffer
  split_ifs with hout
  · exact ⟨_, emitChunk_ok hemit _ _, by simp [Decrypting.produced]⟩
  · have hnil : s.out = [] := length_eq_zero_iff.mp (by omega)
    exact ⟨_, rfl, by simp [Decrypting.produced, hnil]⟩

theorem finishDecrypting_ok (s : Decrypting) (pending : Pending) :
    ∃ chunks, finishDecrypting aes emit nonce s pending = .ok chunks ∧
      chunks.flatten = s.produced ++ plainFrom aes nonce s.counter pending.bytes := by
  obtain ⟨emitted, hbuffer, hflatten⟩ := emitBuffer_ok hemit s
  rw [finishDecrypting, hbuffer]
  by_cases hpending : 0 < pending.bytes.length
  · refine ⟨_, (if_pos hpending).trans (emitChunk_ok hemit _ _), ?_⟩
    rw [flatten_append, hflatten, plainFrom,
      gctr_of_lt aes _ (length_pos_iff.mp hpending) pending.not_full, bytesOf_blockOf]
    simp
  · have hnil : pending.bytes = [] := length_eq_zero_iff.mp (by omega)
    refine ⟨emitted, if_neg hpending, ?_⟩
    rw [hflatten, hnil, plainFrom, gctr_nil, append_nil]

end

theorem decryptPass_ok (hreads : fs.Reads) (hemit : emit.Accepts) (file : Handle)
    (hsize : ciphertext.length / gcmBlock + 2 ≤ u32Max) (hpos : gcmNonceLen + ciphertext.length ≤ file.content.length)
    (hdata : (file.content.drop gcmNonceLen).take ciphertext.length = ciphertext) :
    ∃ chunks, decryptPass fs emit aes nonce file ciphertext.length = .ok chunks ∧
      chunks.flatten = gctr aes (inc32 (preCounter nonce)) ciphertext := by
  have hcounter : (⟨2, [], []⟩ : Decrypting).counter + ciphertext.length / gcmBlock ≤ u32Max := by
    rw [Nat.add_comm]
    exact hsize
  obtain ⟨s, hfold, hproduced⟩ : ∃ s, (blocks ciphertext).foldlM (decryptBlock aes emit nonce) ⟨2, [], []⟩ = .ok s ∧
        s.produced ++ plainFrom aes nonce s.counter (rest ciphertext).bytes = plainFrom aes nonce 2 ciphertext :=
    foldlM_decryptBlock_ok hemit ciphertext hcounter
  have hread : (blocks (Pending.empty.bytes ++ ((file.seek gcmNonceLen).content.drop
      (file.seek gcmNonceLen).pos).take ciphertext.length)).foldlM (decryptBlock aes emit nonce) ⟨2, [], []⟩ =
        .ok s := by
    rw [empty_append, Handle.seek, hdata]
    exact hfold
  obtain ⟨file', -, hloop⟩ := readLoop_ok hreads (fun s e => (s.emitted, Failure.refused e))
    (file.seek gcmNonceLen) hpos hread
  rw [empty_append, Handle.seek, hdata] at hloop
  obtain ⟨chunks, hchunks, hflatten⟩ := finishDecrypting_ok hemit s (rest ciphertext)
  refine ⟨chunks, ?_, ?_⟩
  · rw [decryptPass, Handle.seek, hloop]
    exact hchunks
  · rw [hflatten, hproduced, plainFrom, preCounter_eq, inc32_counterBlock]

end Second

theorem refuse_ok {α : Type} {x : Except String α} {a : α} (h : x = .ok a) : refuse x = .ok a := by
  rw [h]
  rfl

variable {key : Vector UInt8 32} {keyHex : String}

theorem keyOf_ok {env : Env} (hkey : env.hexDecode keyHex = .ok key.toList) : keyOf env keyHex = .ok key := by
  have hsize : key.toList.toArray.size = 32 := by rw [size_toArray, Vector.length_toList]
  rw [keyOf, hkey]
  simp only [dif_pos hsize]
  rfl

theorem layout (nonce : Vector UInt8 12) (ciphertext : Bytes) (tag : Vector UInt8 16) :
    let content := nonce.toList ++ ciphertext ++ tag.toList
    content.take gcmNonceLen = nonce.toList ∧ (content.drop gcmNonceLen).take ciphertext.length = ciphertext ∧
      (content.drop (content.length - gcmTagLen)).take gcmTagLen = tag.toList ∧
      content.length = ciphertext.length + 28 := by
  have hnonce : nonce.toList.length = gcmNonceLen := Vector.length_toList
  have htag : tag.toList.length = gcmTagLen := Vector.length_toList
  refine ⟨?_, ?_, ?_, ?_⟩
  · rw [append_assoc, ← hnonce, take_left]
  · rw [append_assoc, ← hnonce, drop_left, take_left]
  · rw [length_append, htag, Nat.add_sub_cancel, drop_left, ← htag, take_length]
  · rw [length_append, length_append, hnonce, htag, gcmNonceLen, gcmTagLen]
    omega

theorem ciphertextLen_layout (hsize : ciphertext.length / gcmBlock + 2 ≤ u32Max) :
    ciphertextLen (ciphertext.length + 28) = .ok ciphertext.length := by
  have hlen : ciphertext.length + 28 - (gcmNonceLen + gcmTagLen) = ciphertext.length := Nat.add_sub_cancel _ _
  rw [ciphertextLen, hlen, if_neg (by simp only [gcmNonceLen, gcmTagLen]; omega), if_neg (by omega)]

theorem ofFn_toList_getD (nonce : Vector UInt8 12) : (Vector.ofFn fun i : Fin 12 => nonce.toList.getD i.val 0) = nonce := by
  apply Vector.ext
  intro i hi
  have hin : i < nonce.toList.length := by
    rw [Vector.length_toList]
    exact hi
  rw [Vector.getElem_ofFn, getD_eq_getElem _ _ hin, Vector.getElem_toList]

theorem decryptRecordingStream_eq {env : Env} {fs : FileSystem} (emit : Emit) {nonce : Vector UInt8 12}
    {tag : Vector UInt8 16} (hkey : env.hexDecode keyHex = .ok key.toList)
    (hfile : fs.openFile = .ok (nonce.toList ++ ciphertext ++ tag.toList))
    (hsize : ciphertext.length / gcmBlock + 2 ≤ u32Max) (hreads : fs.Reads) :
    ∃ file, file.content = nonce.toList ++ ciphertext ++ tag.toList ∧ decryptRecordingStream fs env emit keyHex =
        if Gcm.tag (env.aes256 key) nonce ciphertext = tag.toList then
          decryptPass fs emit (env.aes256 key) nonce file ciphertext.length
        else .error ([], .refused "recording failed authentication (tag mismatch)") := by
  obtain ⟨hnonce, hcipher, htag, hlen⟩ := layout nonce ciphertext tag
  have hlayout := ciphertextLen_layout hsize
  rw [← hlen] at hlayout
  generalize hcontent : nonce.toList ++ ciphertext ++ tag.toList = content at *
  obtain ⟨reads, hread⟩ := readExact_ok hreads ⟨content, 0, 0⟩ gcmNonceLen
    (by simp only [gcmNonceLen]; omega)
  obtain ⟨reads', hread'⟩ := readExact_ok hreads ⟨content, content.length - gcmTagLen, reads⟩ gcmTagLen
    (by simp only [gcmTagLen]; omega)
  obtain ⟨expected, file, hfile', hexpected, htags⟩ := gcmExpectedTag_ok hreads (env.aes256 key)
    ⟨content, gcmNonceLen, reads'⟩ nonce (by simp only [gcmNonceLen]; omega) hcipher
  simp only [drop_zero, hnonce, htag] at hread hread'
  refine ⟨file, hfile', ?_⟩
  simp only [decryptRecordingStream, Handle.seek, refuse_ok (keyOf_ok hkey), refuse_ok hfile, refuse_ok hlayout,
    refuse_ok hread, refuse_ok hread', ofFn_toList_getD, refuse_ok hexpected, htags, bind, Except.bind]

/-- **Streaming decryption is the decryption of GCM**, however the file system cuts the file into reads: with
the right tag the emitted chunks make up the plaintext, otherwise nothing is emitted. The counter of the blocks
does not overflow. -/
theorem decryptRecordingStream_eq_gcm (env : Env) (fs : FileSystem) (emit : Emit) (keyHex : String)
    (key : Vector UInt8 32) (nonce : Vector UInt8 12) (ciphertext : Bytes) (tag : Vector UInt8 16)
    (hkey : env.hexDecode keyHex = .ok key.toList)
    (hfile : fs.openFile = .ok (nonce.toList ++ ciphertext ++ tag.toList))
    (hsize : ciphertext.length / gcmBlock + 2 ≤ u32Max) (hreads : fs.Reads) (hemit : emit.Accepts) :
    (∀ plaintext, Gcm.decrypt (env.aes256 key) nonce ciphertext tag.toList = some plaintext →
      ∃ chunks, decryptRecordingStream fs env emit keyHex = .ok chunks ∧ chunks.flatten = plaintext) ∧
    (Gcm.decrypt (env.aes256 key) nonce ciphertext tag.toList = none →
      ∃ message, decryptRecordingStream fs env emit keyHex = .error ([], .refused message)) := by
  obtain ⟨file, hcontent, hrun⟩ := decryptRecordingStream_eq emit hkey hfile hsize hreads
  obtain ⟨-, hcipher, -, hlen⟩ := layout nonce ciphertext tag
  rw [← hcontent] at hcipher hlen
  unfold Gcm.decrypt
  refine ⟨?_, ?_⟩
  · intro plaintext hplain
    split_ifs at hplain with htag
    obtain ⟨chunks, hpass, hflatten⟩ : ∃ chunks, decryptPass fs emit (env.aes256 key) nonce file
        ciphertext.length = .ok chunks ∧ _ :=
      decryptPass_ok hreads hemit file hsize (by rw [hlen, gcmNonceLen]; omega) hcipher
    exact ⟨chunks, by rw [hrun, if_pos htag.symm, hpass], hflatten.trans (Option.some.inj hplain)⟩
  · intro hnone
    split_ifs at hnone with htag
    exact ⟨_, by rw [hrun, if_neg (Ne.symm htag)]⟩

def zeroKeyHex : String := "0000000000000000000000000000000000000000000000000000000000000000"

def placeEnv : Env where
  hexDecode s :=
    if s = zeroKeyHex then .ok (Vector.replicate 32 (0 : UInt8)).toList else .error "Odd number of digits"
  aes256 key block := Vector.ofFn fun i => block.get i + key.toList.getD i.val 0 + 1 + UInt8.ofNat i.val

def countingNonce : Vector UInt8 12 := Vector.ofFn fun i => UInt8.ofNat i.val

def countingText : Bytes := (List.range 21).map UInt8.ofNat

def countingTag : Vector UInt8 16 :=
  Vector.ofFn fun i =>
    ([40, 67, 27, 242, 80, 78, 220, 77, 146, 190, 111, 254, 111, 91, 94, 160] : Bytes).getD i.val 0

def shortReads : FileSystem where
  openFile := .ok (countingNonce.toList ++ countingText ++ countingTag.toList)
  answer k := .ok (k % 3 + 5)

theorem decryptRecordingStream_short_reads :
    ∃ chunks, decryptRecordingStream shortReads placeEnv (fun _ _ => .ok ()) zeroKeyHex = .ok chunks ∧
      chunks.flatten = [1, 2, 7, 4, 13, 14, 11, 8, 25, 26, 31, 28, 1, 3, 1, 29, 17, 18, 23, 20, 29] := by
  have hdecrypt : Gcm.decrypt (placeEnv.aes256 (Vector.replicate 32 0)) countingNonce countingText
      countingTag.toList =
        some [1, 2, 7, 4, 13, 14, 11, 8, 25, 26, 31, 28, 1, 3, 1, 29, 17, 18, 23, 20, 29] := by decide +kernel
  have hkey : placeEnv.hexDecode zeroKeyHex = .ok (Vector.replicate 32 (0 : UInt8)).toList := by
    simp only [placeEnv, if_true]
  have hreads : shortReads.Reads := fun k => ⟨k % 3 + 5, rfl⟩
  have hemit : Emit.Accepts fun _ _ => .ok () := fun _ _ => rfl
  have hsize : countingText.length / gcmBlock + 2 ≤ u32Max := by decide +kernel
  exact (decryptRecordingStream_eq_gcm placeEnv shortReads _ zeroKeyHex _ countingNonce countingText countingTag
    hkey rfl hsize hreads hemit).1 _ hdecrypt

end Persea.Recording.Stream
