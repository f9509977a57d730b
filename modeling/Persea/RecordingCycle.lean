import Persea.BaseTransition

/-! Recordings of a session over its owner connections. A connection opens the recording, the proxy writes to it, and
the teardown encrypts it. Every step is one access to the disk; the teardown may fail at each. -/

namespace Persea.Recording

open Base Transition Option

abbrev Bytes := List UInt8

/-- AES-GCM under a configured key: what was encrypted with a key is decrypted with it. -/
structure Crypto where
  encryptBytes : String → Bytes → Bytes → Bytes
  decryptBytes : String → Bytes → Except String Bytes
  decrypt_encrypt : ∀ key nonce plaintext, decryptBytes key (encryptBytes key nonce plaintext) = .ok plaintext

structure RecordingConfig where
  encryptAtRest : Option Bool
  encryptionKey : Option String
deriving DecidableEq, Repr

def shouldEncryptAtRest (config : RecordingConfig) : Bool :=
  match config.encryptAtRest with
  | some v => v
  | none => config.encryptionKey.any (· ≠ "")

def EncryptsWith (config : RecordingConfig) (key : String) : Prop :=
  shouldEncryptAtRest config = true ∧ config.encryptionKey = some key

structure File where
  inode : Nat
  content : Bytes
deriving DecidableEq, Repr

structure Disk where
  guac : Option File
  enc : Option Bytes
  nextInode : Nat
deriving DecidableEq, Repr

variable (crypto : Crypto)

variable (disk : Disk)

def decryptRecording (key : String) : Except String Bytes :=
  match disk.enc with
  | some data => crypto.decryptBytes key data
  | none =>
    match disk.guac with
    | some file => .ok file.content
    | none => .error "No such file or directory (os error 2)"

inductive RecordingOpen where
  | create
  | append
  | restore (plaintext : Bytes)
  | unavailable
deriving DecidableEq, Repr

def recordingOpenMode (key : Option String) : RecordingOpen :=
  if disk.guac.isSome then .append
  else if disk.enc.isSome then
    match key with
    | none => .unavailable
    | some key =>
      match decryptRecording crypto disk key with
      | .ok plaintext => .restore plaintext
      | .error _ => .unavailable
  else .create

structure Handle where
  inode : Nat
  position : Option Nat
deriving DecidableEq, Repr

def Disk.put (content : Bytes) : Disk × Nat :=
  match disk.guac with
  | some file => ({ disk with guac := some { file with content } }, file.inode)
  | none => ({ disk with guac := some ⟨disk.nextInode, content⟩, nextInode := disk.nextInode + 1 }, disk.nextInode)

def Disk.openRecording : RecordingOpen → Disk × Option Handle
  | .create => ((disk.put []).1, some ⟨(disk.put []).2, some 0⟩)
  | .append => (disk, disk.guac.map fun file => ⟨file.inode, none⟩)
  | .restore plaintext => ((disk.put plaintext).1, some ⟨(disk.put plaintext).2, none⟩)
  | .unavailable => (disk, none)

def Disk.write (handle : Handle) (data : Bytes) : Disk × Handle :=
  match disk.guac with
  | some file =>
    if file.inode = handle.inode then
      let start := handle.position.getD file.content.length
      let content := file.content.take start ++ List.replicate (start - file.content.length) 0 ++ data ++
        file.content.drop (start + data.length)
      ({ disk with guac := some { file with content } },
        { handle with position := handle.position.map (· + data.length) })
    else (disk, handle)
  | none => (disk, handle)

inductive Phase where
  /-- The mode has been decided and the file is not open yet. -/
  | opening (mode : RecordingOpen)
  | recording (file : Option Handle)
  /-- The proxy has ended. -/
  | closing
  /-- The plaintext has been read and encrypted. -/
  | encrypted (data : Bytes)
  /-- The encrypted file is written. -/
  | written
  | done
deriving DecidableEq, Repr

structure World where
  disk : Disk
  connections : List Phase
  /-- All bytes the proxy has recorded, in order. -/
  recorded : Bytes
deriving DecidableEq, Repr

open World

def World.start : World := ⟨⟨none, none, 0⟩, [], []⟩

/-- How the write of the encrypted file fails: before the old one is touched, or with some bytes left behind. -/
inductive WriteFault where
  | untouched
  | torn (left : Bytes)
deriving DecidableEq, Repr

inductive Event where
  | connect
  | openFile (c : Nat)
  | record (c : Nat) (data : Bytes)
  | finish (c : Nat)
  /-- Decode the key, read the plaintext and encrypt it. -/
  | encrypt (c : Nat) (nonce : Bytes) (ok : Bool)
  | writeEnc (c : Nat) (fault : Option WriteFault)
  | removePlain (c : Nat) (ok : Bool)
deriving DecidableEq, Repr

def World.move (w : World) (c : Nat) (phase : Phase) : World := { w with connections := w.connections.set c phase }

variable (config : RecordingConfig)

def World.step (w : World) : Event → World
  | .connect =>
    { w with connections := w.connections ++ [.opening (recordingOpenMode crypto w.disk config.encryptionKey)] }
  | .openFile c =>
    match w.connections[c]? with
    | some (.opening mode) =>
      { w with disk := (w.disk.openRecording mode).1 }.move c (.recording (w.disk.openRecording mode).2)
    | _ => w
  | .record c data =>
    match w.connections[c]? with
    | some (.recording (some handle)) =>
      { w with disk := (w.disk.write handle data).1, recorded := w.recorded ++ data }.move c
        (.recording (some (w.disk.write handle data).2))
    | _ => w
  | .finish c =>
    match w.connections[c]? with
    | some (.recording _) => w.move c .closing
    | _ => w
  | .encrypt c nonce ok =>
    match w.connections[c]? with
    | some .closing =>
      match w.disk.guac, config.encryptionKey with
      | some file, some key =>
        if shouldEncryptAtRest config ∧ ok then
          w.move c (.encrypted (crypto.encryptBytes key nonce file.content))
        else w.move c .done
      | _, _ => w.move c .done
    | _ => w
  | .writeEnc c fault =>
    match w.connections[c]? with
    | some (.encrypted data) =>
      match fault with
      | none => { w with disk.enc := some data }.move c .written
      | some .untouched => w.move c .done
      | some (.torn left) => { w with disk.enc := some left }.move c .done
    | _ => w
  | .removePlain c ok =>
    match w.connections[c]? with
    | some .written => if ok then { w with disk.guac := none }.move c .done else w.move c .done
    | _ => w

/-- The condition: a connection comes when the teardown of the one before it is over, the encryption fails only
when there is no older encrypted file, and never with a torn one. -/
def Orderly (w : World) : Event → Prop
  | .connect => ∀ phase ∈ w.connections, phase = .done
  | .encrypt _ _ ok => ok = true ∨ w.disk.enc = none
  | .writeEnc _ none => True
  | .writeEnc _ (some .untouched) => w.disk.enc = none
  | .writeEnc _ (some (.torn _)) => False
  | _ => True

instance (w : World) : (event : Event) → Decidable (Orderly w event)
  | .connect => inferInstanceAs (Decidable (∀ phase ∈ w.connections, phase = .done))
  | .encrypt _ _ _ => inferInstanceAs (Decidable (_ ∨ _))
  | .writeEnc _ (some .untouched) => inferInstanceAs (Decidable (_ = _))
  | .writeEnc _ (some (.torn _)) => isFalse id
  | .writeEnc _ none | .openFile _ | .record _ _ | .finish _ | .removePlain _ _ => isTrue trivial

variable {crypto} {config} {key : String} {disk : Disk} {recorded : Bytes}

def Disk.Plain (recorded : Bytes) : Prop := ∃ file, disk.guac = some file ∧ file.content = recorded

/-- What is on the disk in each phase of the only connection that is not done. -/
def Phase.Holds (crypto : Crypto) (key : String) (disk : Disk) (recorded : Bytes) : Phase → Prop
  | .opening .create => disk.guac = none ∧ recorded = []
  | .opening .append => disk.Plain recorded
  | .opening (.restore plaintext) => disk.guac = none ∧ plaintext = recorded
  | .opening .unavailable => False
  | .recording none => False
  | .recording (some handle) => ∃ file, disk.guac = some file ∧ file.content = recorded ∧
      file.inode = handle.inode ∧ (handle.position = none ∨ handle.position = some recorded.length)
  | .closing => disk.Plain recorded
  | .encrypted data => disk.Plain recorded ∧ crypto.decryptBytes key data = .ok recorded
  | .written => disk.Plain recorded ∧ ∃ data, disk.enc = some data ∧ crypto.decryptBytes key data = .ok recorded
  | .done => decryptRecording crypto disk key = .ok recorded ∧ ∀ file, disk.guac = some file → file.content = recorded

/-- At most the last connection is not done, and what it relies on holds. -/
def World.Inv (crypto : Crypto) (key : String) (w : World) : Prop :=
  w = .start ∨ ∃ before phase, w.connections = before ++ [phase] ∧ (∀ earlier ∈ before, earlier = .done) ∧
    phase.Holds crypto key w.disk w.recorded

theorem decryptRecording_plain (hplain : disk.Plain recorded) (henc : disk.enc = none) :
    decryptRecording crypto disk key = .ok recorded := by
  obtain ⟨file, hfile, rfl⟩ := hplain
  simp only [decryptRecording, henc, hfile]

theorem decryptRecording_enc {data : Bytes} (henc : disk.enc = some data) :
    decryptRecording crypto disk key = crypto.decryptBytes key data := by
  simp only [decryptRecording, henc]

theorem done_of_plain (hplain : disk.Plain recorded) (henc : disk.enc = none) :
    Phase.Holds crypto key disk recorded .done := by
  refine ⟨decryptRecording_plain hplain henc, fun file hfile => ?_⟩
  obtain ⟨file', hfile', hcontent⟩ := hplain
  rw [hfile] at hfile'
  rwa [some.inj hfile']

theorem put_guac (disk : Disk) (content : Bytes) :
    (disk.put content).1.guac = some ⟨(disk.put content).2, content⟩ := by
  unfold Disk.put
  cases disk.guac <;> rfl

theorem opening_holds (hkey : config.encryptionKey = some key)
    (h : Phase.Holds crypto key disk recorded .done) :
    Phase.Holds crypto key disk recorded (.opening (recordingOpenMode crypto disk config.encryptionKey)) := by
  obtain ⟨hdecrypt, hplain⟩ := h
  unfold recordingOpenMode
  cases hguac : disk.guac with
  | some file =>
    simp only [isSome_some, if_true]
    exact ⟨file, hguac, hplain file hguac⟩
  | none =>
    cases henc : disk.enc with
    | some data =>
      simp only [isSome_none, isSome_some, Bool.false_eq_true, if_true, if_false, hkey, hdecrypt]
      exact ⟨hguac, rfl⟩
    | none =>
      simp only [decryptRecording, henc, hguac] at hdecrypt
      contradiction

theorem recording_holds {mode : RecordingOpen} (h : Phase.Holds crypto key disk recorded (.opening mode)) :
    Phase.Holds crypto key (disk.openRecording mode).1 recorded (.recording (disk.openRecording mode).2) := by
  cases mode with
  | create => exact ⟨_, put_guac disk [], h.2.symm, rfl, .inr (by rw [h.2]; rfl)⟩
  | append =>
    obtain ⟨file, hfile, hcontent⟩ := h
    simp only [Disk.openRecording, hfile, map_some]
    exact ⟨file, hfile, hcontent, rfl, .inl rfl⟩
  | restore plaintext => exact ⟨_, put_guac disk plaintext, h.2, rfl, .inl rfl⟩
  | unavailable => exact h.elim

theorem write_holds {handle : Handle} (h : Phase.Holds crypto key disk recorded (.recording (some handle)))
    (data : Bytes) : Phase.Holds crypto key (disk.write handle data).1 (recorded ++ data)
      (.recording (some (disk.write handle data).2)) := by
  obtain ⟨file, hfile, hcontent, hinode, hposition⟩ := h
  have hstart : handle.position.getD file.content.length = file.content.length := by
    rcases hposition with hnone | hsome
    · rw [hnone]
      rfl
    · rw [hsome, hcontent]
      rfl
  have hwrite : disk.write handle data = ({ disk with guac := some { file with content := file.content ++ data } },
        { handle with position := handle.position.map (· + data.length) }) := by
    simp [Disk.write, hfile, hinode, hstart]
  rw [hwrite]
  refine ⟨_, rfl, by rw [hcontent], hinode, ?_⟩
  rcases hposition with hnone | hsome
  · exact .inl (by rw [hnone]; rfl)
  · exact .inr (by rw [hsome, List.length_append]; rfl)

theorem closing_holds {file : Option Handle} (h : Phase.Holds crypto key disk recorded (.recording file)) :
    disk.Plain recorded := by
  cases file with
  | none => exact h.elim
  | some handle =>
    obtain ⟨file, hfile, hcontent, -, -⟩ := h
    exact ⟨file, hfile, hcontent⟩

/-! ### Steps -/

variable {w : World} {c : Nat} {phase : Phase}

theorem World.Inv.active (hinv : w.Inv crypto key) (hc : w.connections[c]? = some phase) (hphase : phase ≠ .done) :
    ∃ before, w.connections = before ++ [phase] ∧ (∀ earlier ∈ before, earlier = .done) ∧ c = before.length ∧
      phase.Holds crypto key w.disk w.recorded := by
  rcases hinv with rfl | ⟨before, last, hconnections, hbefore, hholds⟩
  · simp [start] at hc
  · rw [hconnections, List.getElem?_append] at hc
    split_ifs at hc with hlt
    · exact absurd (hbefore phase (List.mem_of_getElem? hc)) hphase
    · rw [List.getElem?_singleton] at hc
      split_ifs at hc with hzero
      cases hc
      exact ⟨before, hconnections, hbefore, by omega, hholds⟩

theorem World.Inv.holds (hinv : w.Inv crypto key) (hc : w.connections[c]? = some phase) (hphase : phase ≠ .done) :
    phase.Holds crypto key w.disk w.recorded := by
  obtain ⟨-, -, -, -, hholds⟩ := hinv.active hc hphase
  exact hholds

theorem World.Inv.advance (hinv : w.Inv crypto key) (hc : w.connections[c]? = some phase) (hphase : phase ≠ .done)
    {w' : World} {phase' : Phase} (hw' : w'.connections = w.connections.set c phase')
    (hholds : phase'.Holds crypto key w'.disk w'.recorded) : w'.Inv crypto key := by
  obtain ⟨before, hconnections, hbefore, hlength, -⟩ := hinv.active hc hphase
  refine .inr ⟨before, phase', ?_, hbefore, hholds⟩
  rw [hw', hconnections, hlength, List.set_append_right _ _ (Nat.le_refl _), Nat.sub_self, List.set_cons_zero]

theorem inv_connect (hkey : config.encryptionKey = some key) (hinv : w.Inv crypto key)
    (hdone : ∀ phase ∈ w.connections, phase = .done) : (w.step crypto config .connect).Inv crypto key := by
  refine .inr ⟨w.connections, _, rfl, hdone, ?_⟩
  rcases hinv with rfl | ⟨before, last, hconnections, -, hholds⟩
  · exact ⟨rfl, rfl⟩
  · obtain rfl : last = .done := hdone last (by rw [hconnections]; simp)
    exact opening_holds hkey hholds

theorem inv_encrypt (hon : EncryptsWith config key) {nonce : Bytes} {ok : Bool} (hinv : w.Inv crypto key)
    (hguard : Orderly w (.encrypt c nonce ok)) : (w.step crypto config (.encrypt c nonce ok)).Inv crypto key := by
  obtain ⟨hencrypts, hkey⟩ := hon
  simp only [step, hkey, hencrypts, true_and]
  split
  · rename_i hc
    have hplain : w.disk.Plain w.recorded := hinv.holds hc (by simp)
    obtain ⟨file, hfile, hcontent⟩ := hplain
    simp only [hfile]
    split_ifs with hok
    · refine hinv.advance hc (by simp) rfl ⟨⟨file, hfile, hcontent⟩, ?_⟩
      rw [hcontent]
      exact crypto.decrypt_encrypt key nonce w.recorded
    · have henc : w.disk.enc = none := hguard.resolve_left hok
      exact hinv.advance hc (by simp) rfl (done_of_plain ⟨file, hfile, hcontent⟩ henc)
  · exact hinv

theorem inv_writeEnc {fault : Option WriteFault} (hinv : w.Inv crypto key) (hguard : Orderly w (.writeEnc c fault)) :
    (w.step crypto config (.writeEnc c fault)).Inv crypto key := by
  simp only [step]
  split
  · rename_i data hc
    obtain ⟨hplain, hdata⟩ : w.disk.Plain w.recorded ∧ crypto.decryptBytes key data = .ok w.recorded :=
      hinv.holds hc (by simp)
    match fault, hguard with
    | none, _ => exact hinv.advance hc (by simp) rfl ⟨hplain, data, rfl, hdata⟩
    | some .untouched, henc => exact hinv.advance hc (by simp) rfl (done_of_plain hplain henc)
  · exact hinv

theorem inv_removePlain {ok : Bool} (hinv : w.Inv crypto key) :
    (w.step crypto config (.removePlain c ok)).Inv crypto key := by
  simp only [step]
  split
  · rename_i hc
    obtain ⟨hplain, data, henc, hdata⟩ : w.disk.Plain w.recorded ∧
        ∃ data, w.disk.enc = some data ∧ crypto.decryptBytes key data = .ok w.recorded := hinv.holds hc (by simp)
    split_ifs
    · have hstill : ({ w.disk with guac := none } : Disk).enc = some data := henc
      have hread := (decryptRecording_enc hstill).trans hdata
      exact hinv.advance hc (by simp) rfl ⟨hread, fun _ hfile => by contradiction⟩
    · refine hinv.advance hc (by simp) rfl ⟨(decryptRecording_enc henc).trans hdata, fun file hfile => ?_⟩
      obtain ⟨file', hfile', hcontent⟩ := hplain
      obtain rfl : file = file' := some.inj (hfile.symm.trans hfile')
      exact hcontent
  · exact hinv

theorem inv_step (hon : EncryptsWith config key) {event : Event} (hinv : w.Inv crypto key)
    (hguard : Orderly w event) : (w.step crypto config event).Inv crypto key := by
  cases event with
  | connect => exact inv_connect hon.2 hinv hguard
  | openFile c =>
    simp only [step]
    split
    · rename_i mode hc
      exact hinv.advance hc (by simp) rfl (recording_holds (hinv.holds hc (by simp)))
    · exact hinv
  | record c data =>
    simp only [step]
    split
    · rename_i handle hc
      exact hinv.advance hc (by simp) rfl (write_holds (hinv.holds hc (by simp)) data)
    · exact hinv
  | finish c =>
    simp only [step]
    split
    · rename_i file hc
      exact hinv.advance hc (by simp) rfl (closing_holds (hinv.holds hc (by simp)))
    · exact hinv
  | encrypt c nonce ok => exact inv_encrypt hon hinv hguard
  | writeEnc c fault => exact inv_writeEnc hinv hguard
  | removePlain c ok => exact inv_removePlain hinv

def marking : Crypto where
  encryptBytes := fun _ _ plaintext => 1 :: plaintext
  decryptBytes := fun _ data =>
    match data with
    | [] => .error "decryption failed: data too short (0 bytes, need at least 28)"
    | mark :: plaintext => if mark = 1 then .ok plaintext else .error "decryption failed: aead::Error"
  decrypt_encrypt := fun _ _ _ => rfl

def encryptsByKey : RecordingConfig := ⟨none, some "00"⟩

/-- A connection that records some bytes, and its teardown up to the encryption. -/
def recordedBy (c : Nat) (data : Bytes) : List Event := [.connect, .openFile c, .record c data, .finish c]

/-- Two connections, and the plaintext of the first stays because it cannot be removed. -/
def twoCycles : List Event :=
  recordedBy 0 [7] ++ [Event.encrypt 0 [] true, .writeEnc 0 none, .removePlain 0 false] ++
    recordedBy 1 [8, 9] ++ [Event.encrypt 1 [] true, .writeEnc 1 none, .removePlain 1 true]

/-- The recording is encrypted, goes on, and cannot be encrypted again. -/
def failsLater : List Event :=
  recordedBy 0 [7] ++ [Event.encrypt 0 [] true, .writeEnc 0 none, .removePlain 0 true] ++
    recordedBy 1 [8, 9] ++ [Event.encrypt 1 [] false]

/-- The disk is full when the encrypted file is written. -/
def failsTorn : List Event := recordedBy 0 [7] ++ [Event.encrypt 0 [] true, .writeEnc 0 (some (.torn []))]

/-- The owner is back before the teardown of their first connection encrypts the recording; nothing fails. -/
def comesBack : List Event :=
  recordedBy 0 [7] ++ [Event.connect, .openFile 1, .encrypt 0 [] true, .writeEnc 0 none, .removePlain 0 true,
    .record 1 [8, 9], .finish 1, .encrypt 1 [] true]

end Persea.Recording
