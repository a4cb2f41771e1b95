import Magisk.Core.Module.Isolation
import Magisk.Core.Socket.Codec
import Magisk.Duplex.Core

/-!
# The `GetInfo` request

A process asks the daemon about itself and gets flags and the descriptors of the
modules to load; `system_server` reports the modules that failed.  Both programs are
parties on one connection: `get_module_info` and what the callers do after it, and
`get_process_info`.
-/

namespace Magisk.Core.Zygisk.GetInfo

open List Bytes
open Codec (many)
open Core.Module (ModuleInfo)
open Core.Socket Duplex

variable {count place : Nat} {list : List ModuleInfo}

/-! ## The setting -/

/-- `UNMOUNT_MASK`: `ProcessOnDenyList` and `DenyListEnforced`. -/
def unmountMask : UInt32 :=
  0x40000002

/-- `ZygiskStateFlags::ProcessIsMagiskApp`. -/
def processIsMagiskApp : UInt32 :=
  0x80000000

/-- `zygisk_should_load_module`, which both programs call. -/
def shouldLoadModule (flags : UInt32) : Bool :=
  flags &&& unmountMask ≠ unmountMask && flags &&& processIsMagiskApp = 0

/-- Who calls `get_module_info`. -/
inductive Caller where
  | appSpecializePre
  | serverSpecializePre
  deriving DecidableEq, Repr

/-- The largest number of descriptors the kernel passes in one message. -/
def maxFds : Nat :=
  253

/-- One request with everything that the two programs find. -/
structure Setting where
  /-- The connection of the client. -/
  fd : Int32
  opened : 0 ≤ fd
  caller : Caller
  uid : Int32
  process : List UInt8
  short : process.length < 2 ^ 31
  isServer : caller = .serverSpecializePre → uid = 1000 ∧ process = utf8 "system_server"
  is64Bit : Bool
  /-- What the daemon finds out about the process. -/
  flags : UInt32
  /-- `module_list` when the descriptors are sent. -/
  modules : Option (List ModuleInfo)
  /-- `module_list` when failed modules are marked; it is set once. -/
  later : Option (List ModuleInfo)
  once : ∀ list, modules = some list → later = some list
  fits : ∀ list, modules = some list → list.length ≤ maxFds
  /-- A descriptor is a regular file that can be loaded. -/
  loads : Int32 → Bool

/-- Four bytes from the daemon, with the descriptors sent along. -/
structure Packet where
  word : UInt32
  fds : List Int32

/-- The descriptor that is sent for a module; an invalid one is replaced by
`STDOUT_FILENO`. -/
def moduleFd (is64Bit : Bool) (module : ModuleInfo) : Int32 :=
  let fd := if is64Bit then module.z64 else module.z32
  if fd < 0 then 1 else fd

/-- `get_module_fds` of a list. -/
def getModuleFds (is64Bit : Bool) (list : List ModuleInfo) : List Int32 :=
  list.map (moduleFd is64Bit)

/-! ## The client -/

/-- Where the client is. -/
inductive Client where
  | writeUid
  | writeLength
  | writeProcess
  | writeBits
  | readFlags
  | recvFds
  /-- `run_modules_pre`, and `server_specialize_pre` after it. -/
  | runModules (fds : List Int32)
  | done (fds : List Int32)

/-- The places of the descriptors that `run_modules_pre` sets to -1. -/
def failedIds (loads : Int32 → Bool) (fds : List Int32) : List Int32 :=
  (fds.zipIdx.filter fun entry => !loads entry.1).map fun entry => Int32.ofNat entry.2

/-- What the client writes at the end. -/
def Setting.report (setting : Setting) (fds : List Int32) : List UInt8 :=
  match setting.caller with
  | .appSpecializePre => []
  | .serverSpecializePre =>
    if fds = [] then writeInt setting.fd 0
    else writeVector encodeI32 setting.fd (failedIds setting.loads fds)

/-- The client after it has the flags. -/
def afterFlags (flags : UInt32) : Client :=
  if shouldLoadModule flags then .recvFds else .runModules []

/-- The client.  At the end of the stream `xxread` leaves the flags zero and `recv_fds`
returns nothing. -/
def client (setting : Setting) : Party Client Packet UInt8
  | .writeUid, _, _ => some ⟨.writeLength, 0, writeInt setting.fd setting.uid, false⟩
  | .writeLength, _, _ =>
    some ⟨.writeProcess, 0, writeInt setting.fd (Int32.ofNat setting.process.length), false⟩
  | .writeProcess, _, _ => some ⟨.writeBits, 0, writeAny setting.fd setting.process, false⟩
  | .writeBits, _, _ => some ⟨.readFlags, 0, writeBool setting.fd setting.is64Bit, false⟩
  | .readFlags, packet :: _, _ => some ⟨afterFlags packet.word, 1, [], false⟩
  | .readFlags, [], true => some ⟨afterFlags 0, 0, [], false⟩
  | .readFlags, [], false => none
  | .recvFds, packet :: _, _ => some ⟨.runModules packet.fds, 1, [], false⟩
  | .recvFds, [], true => some ⟨.runModules [], 0, [], false⟩
  | .recvFds, [], false => none
  | .runModules fds, _, _ => some ⟨.done fds, 0, setting.report fds, true⟩
  | .done _, _, _ => none

/-! ## The daemon -/

/-- Where the daemon is. -/
inductive Daemon where
  | readUid
  | readLength (uid : Int32)
  | readProcess (uid : Int32) (length : Nat)
  | readBits (uid : Int32) (process : String)
  | sendFlags (uid : Int32) (process : String) (is64Bit : Bool)
  | sendFds (uid : Int32) (process : String) (is64Bit : Bool)
  | checkServer (uid : Int32) (process : String)
  | readCount
  | readIds (count : Nat)
  | done (unloaded : List (List UInt8))

/-- The connection is closed when `get_process_info` returns. -/
def Daemon.isDone : Daemon → Bool
  | .done _ => true
  | _ => false

/-- The connection is closed on an error; so it is when the daemon aborts. -/
def fails : Move Daemon Packet :=
  ⟨.done [], 0, [], true⟩

/-- `read_exact`, and what is done with the bytes. -/
def receive (count : Nat) (use : List UInt8 → Option Daemon) (input : List UInt8)
    (closed : Bool) : Option (Move Daemon Packet) :=
  if count ≤ input.length then
    match use (input.take count) with
    | some next => some ⟨next, count, [], next.isDone⟩
    | none => some fails
  else if closed then some fails
  else none

/-- A number of four bytes. -/
def word (bytes : List UInt8) : Int32 :=
  (UInt32.ofNat (ofLe bytes)).toInt32

/-- A length; a negative one aborts. -/
def lengthThen (bytes : List UInt8) (next : Nat → Daemon) : Option Daemon :=
  if (word bytes).toInt < 0 then none else some (next (word bytes).toInt.toNat)

/-- `send_fds`, unless there are too many descriptors. -/
def sendFds (fds : List Int32) : Option (List Packet) :=
  if fds.length = 0 then some [⟨0, []⟩]
  else if maxFds < fds.length then none
  else some [⟨UInt32.ofNat fds.length, fds⟩]

/-- The numbers in a vector of which the count is known. -/
def idsOf (count : Nat) (bytes : List UInt8) : List Int32 :=
  match many decodeI32 count bytes with
  | .ok (ids, _) => ids
  | .error _ => []

/-- The names of the modules with these ids. -/
def unloadedNames (later : Option (List ModuleInfo)) (ids : List Int32) : List (List UInt8) :=
  match later with
  | none => []
  | some list =>
    ids.filterMap fun id =>
      if id.toInt < 0 then none else list[id.toInt.toNat]?.map ModuleInfo.name

/-- `get_process_info`. -/
def daemon (setting : Setting) : Party Daemon UInt8 Packet
  | .readUid, input, closed => receive 4 (fun bytes => some (.readLength (word bytes))) input closed
  | .readLength uid, input, closed =>
    receive 4 (fun bytes => lengthThen bytes (.readProcess uid)) input closed
  | .readProcess uid count, input, closed =>
    receive count (fun bytes => (fromUtf8 bytes).map (.readBits uid)) input closed
  | .readBits uid process, input, closed =>
    receive 1 (fun bytes => some (.sendFlags uid process (ofLe bytes != 0))) input closed
  | .sendFlags uid process is64Bit, _, _ =>
    some ⟨.sendFds uid process is64Bit, 0, [⟨setting.flags, []⟩], false⟩
  | .sendFds uid process is64Bit, _, _ =>
    if shouldLoadModule setting.flags then
      match setting.modules with
      | none => some ⟨.checkServer uid process, 0, [], false⟩
      | some list =>
        match sendFds (getModuleFds is64Bit list) with
        | none => some fails
        | some packets => some ⟨.checkServer uid process, 0, packets, false⟩
    else some ⟨.checkServer uid process, 0, [], false⟩
  | .checkServer uid process, _, _ =>
    if uid ≠ 1000 ∨ process ≠ "system_server" then some ⟨.done [], 0, [], true⟩
    else some ⟨.readCount, 0, [], false⟩
  | .readCount, input, closed => receive 4 (fun bytes => lengthThen bytes .readIds) input closed
  | .readIds count, input, closed =>
    receive (count * 4) (fun bytes => some (.done (unloadedNames setting.later (idsOf count bytes))))
      input closed
  | .done _, _, _ => none

/-- Before anything was sent. -/
def start : Config Client Daemon UInt8 Packet :=
  ⟨.writeUid, .readUid, [], [], false, false⟩

/-! ## What is asked for -/

/-- The names of the modules that the client could not load, if it reports them. -/
def Setting.failedModules (setting : Setting) : List (List UInt8) :=
  match setting.caller, setting.modules with
  | .serverSpecializePre, some list =>
    if shouldLoadModule setting.flags then
      (list.filter fun module => !setting.loads (moduleFd setting.is64Bit module)).map
        ModuleInfo.name
    else []
  | _, _ => []

/-- In every run: it is never so that both wait; each descriptor of a client that is done
belongs to the module in its place; and a daemon that is done has marked exactly the
modules that failed. -/
structure Works (setting : Setting) : Prop where
  live : ∀ config, Reaches (client setting) (daemon setting) start config →
    ¬ Deadlock (client setting) (daemon setting) config
  descriptors : ∀ config fds, Reaches (client setting) (daemon setting) start config →
    config.left = .done fds → ∀ (place : Nat) fd, fds[place]? = some fd →
      ∃ list module, setting.modules = some list ∧ list[place]? = some module ∧
        fd = moduleFd setting.is64Bit module
  reports : ∀ config unloaded, Reaches (client setting) (daemon setting) start config →
    config.right = .done unloaded → unloaded = setting.failedModules

/-- Nothing is sent to a client that waits for modules, and the daemon waits for a
report. -/
def Setting.Stuck (setting : Setting) : Prop :=
  setting.modules = none ∧ shouldLoadModule setting.flags = true ∧ setting.uid = 1000 ∧
    setting.process = utf8 "system_server"

/-! ## Moves do not depend on the order -/

theorem steady_client (setting : Setting) : (client setting).Steady := by
  intro state input move moves
  cases state with
  | readFlags =>
    cases input with
    | nil => cases moves
    | cons packet rest =>
      cases moves
      exact ⟨Nat.le_add_left 1 _, fun more closed => rfl⟩
  | recvFds =>
    cases input with
    | nil => cases moves
    | cons packet rest =>
      cases moves
      exact ⟨Nat.le_add_left 1 _, fun more closed => rfl⟩
  | done fds => cases moves
  | _ =>
    cases moves
    exact ⟨Nat.zero_le _, fun more closed => rfl⟩

variable {use : List UInt8 → Option Daemon}

theorem steady_receive {input : List UInt8} {move : Move Daemon Packet}
    (moves : receive count use input false = some move) :
    move.taken ≤ input.length ∧
      ∀ more closed, receive count use (input ++ more) closed = some move := by
  rw [receive] at moves
  split at moves
  · rename_i enough
    have still : ∀ more : List UInt8, count ≤ (input ++ more).length := by
      intro more
      rw [length_append]
      omega
    constructor
    · split at moves
      · cases moves
        exact enough
      · cases moves
        exact Nat.zero_le _
    · intro more closed
      rw [receive, if_pos (still more), take_append_of_le_length enough, moves]
  · cases moves

theorem steady_daemon (setting : Setting) : (daemon setting).Steady := by
  intro state input move moves
  cases state with
  | sendFlags uid process is64Bit =>
    cases moves
    exact ⟨Nat.zero_le _, fun more closed => rfl⟩
  | sendFds uid process is64Bit =>
    refine ⟨?_, fun more closed => moves⟩
    simp only [daemon] at moves
    split at moves
    · split at moves
      · cases moves
        exact Nat.zero_le _
      · split at moves
        · cases moves
          exact Nat.zero_le _
        · cases moves
          exact Nat.zero_le _
    · cases moves
      exact Nat.zero_le _
  | checkServer uid process =>
    refine ⟨?_, fun more closed => moves⟩
    simp only [daemon] at moves
    split at moves
    · cases moves
      exact Nat.zero_le _
    · cases moves
      exact Nat.zero_le _
  | done unloaded => cases moves
  | _ =>
    simp only [daemon] at moves ⊢
    exact steady_receive moves

/-! ## What one move does -/

theorem word_encodeI32 (value : Int32) : word (encodeI32 value) = value := by
  have bound : value.toUInt32.toNat < 256 ^ 4 := value.toUInt32.toNat_lt
  rw [word, encodeI32, ofLe_leBytes_of_lt bound, UInt32.ofNat_toNat]
  rfl

theorem length_encodeI32 (value : Int32) : (encodeI32 value).length = 4 := length_leBytes 4 _

/-- The bytes at the front are taken. -/
theorem receive_append {bytes : List UInt8} (enough : bytes.length = count) {next : Daemon}
    (used : use bytes = some next) (rest : List UInt8) (closed : Bool) :
    receive count use (bytes ++ rest) closed = some ⟨next, bytes.length, [], next.isDone⟩ := by
  subst enough
  have inside : bytes.length ≤ (bytes ++ rest).length := by
    rw [length_append]
    omega
  rw [receive, if_pos inside, take_left' rfl, used]

/-- All bytes that are there are taken. -/
theorem receive_all {count : Nat} {use : List UInt8 → Option Daemon} {bytes : List UInt8}
    (enough : bytes.length = count) {next : Daemon} (used : use bytes = some next)
    (closed : Bool) :
    receive count use bytes closed = some ⟨next, bytes.length, [], next.isDone⟩ := by
  have received := receive_append enough used [] closed
  rwa [append_nil] at received

theorem lengthThen_encodeI32 (small : count < 2 ^ 31) (next : Nat → Daemon) :
    lengthThen (encodeI32 (Int32.ofNat count)) next = some (next count) := by
  have number := Int32.toInt_ofNat_of_lt small
  rw [lengthThen, word_encodeI32, number, if_neg (by omega), Int.toNat_natCast]

/-! ## One run -/

section Runs

variable {setting : Setting} {text : String}

/-- The client sends its uid and the length of its name. -/
theorem reaches_writeProcess : Reaches (client setting) (daemon setting) start
      ⟨.writeProcess, .readProcess setting.uid setting.process.length, [], [], false, false⟩ := by
  have uid : Reaches (client setting) (daemon setting) start
      ⟨.writeLength, .readLength setting.uid, [], [], false, false⟩ := by
    apply reaches_up rfl
    rw [writeInt_eq setting.opened, daemon]
    apply receive_all (length_encodeI32 _)
    rw [word_encodeI32]
  refine uid.trans (reaches_up rfl ?_)
  rw [writeInt_eq setting.opened, daemon]
  apply receive_all (length_encodeI32 _)
  exact lengthThen_encodeI32 setting.short _

/-- The client sends its name and gets the flags. -/
theorem reaches_sendFds (decoded : fromUtf8 setting.process = some text) :
    Reaches (client setting) (daemon setting) start
      ⟨afterFlags setting.flags, .sendFds setting.uid text setting.is64Bit, [], [], false,
        false⟩ := by
  have process : Reaches (client setting) (daemon setting)
      ⟨.writeProcess, .readProcess setting.uid setting.process.length, [], [], false, false⟩
      ⟨.writeBits, .readBits setting.uid text, [], [], false, false⟩ := by
    apply reaches_up rfl
    rw [writeAny_eq setting.opened, daemon]
    apply receive_all rfl
    rw [decoded, Option.map_some]
  have bits : Reaches (client setting) (daemon setting)
      ⟨.writeBits, .readBits setting.uid text, [], [], false, false⟩
      ⟨.readFlags, .sendFlags setting.uid text setting.is64Bit, [], [], false, false⟩ := by
    apply reaches_up rfl
    rw [writeBool, writeAny_eq setting.opened, daemon]
    apply @receive_all 1 _ _ rfl
    cases setting.is64Bit <;> rfl
  exact ((reaches_writeProcess.trans process).trans bits).trans (reaches_down rfl rfl)

/-- A name that is not UTF-8 makes the daemon close the connection. -/
theorem reaches_invalid (invalid : fromUtf8 setting.process = none) :
    ∃ rest, Reaches (client setting) (daemon setting) start
      ⟨.runModules [], .done [], [], rest, false, true⟩ := by
  have sent : Reaches (client setting) (daemon setting)
      ⟨.writeProcess, .readProcess setting.uid setting.process.length, [], [], false, false⟩
      ⟨.writeBits, .readProcess setting.uid setting.process.length, [], setting.process, false,
        false⟩ := by
    have moved := @reaches_left _ _ _ _ (client setting) (daemon setting) .writeProcess
      (.readProcess setting.uid setting.process.length) [] [] false _ rfl
    rwa [writeAny_eq setting.opened] at moved
  have failed : daemon setting (.readProcess setting.uid setting.process.length) setting.process
      false = some fails := by
    rw [daemon, receive, if_pos le_rfl, take_length, invalid]
    rfl
  have bits := ((reaches_writeProcess.trans sent).trans (reaches_right_silent failed)).trans
    (reaches_left rfl)
  have flags : client setting .readFlags [] true = some ⟨.recvFds, 0, [], false⟩ := rfl
  have fds : client setting .recvFds [] true = some ⟨.runModules [], 0, [], false⟩ := rfl
  exact ⟨_, (bits.trans (reaches_left_silent flags)).trans (reaches_left_silent fds)⟩

/-- The client runs its modules, reports and closes the connection. -/
theorem reaches_done (fds : List Int32) (right : Daemon) (toRight : List UInt8) (closed : Bool) :
    Reaches (client setting) (daemon setting) ⟨.runModules fds, right, [], toRight, false, closed⟩
      ⟨.done fds, right, [], toRight ++ setting.report fds, true, closed⟩ := by
  have moves : client setting (.runModules fds) [] closed =
      some ⟨.done fds, 0, setting.report fds, true⟩ := by
    rw [client]
  exact reaches_left moves

/-- The report is a vector of the ids, also if there are no descriptors. -/
theorem report_eq (isServer : setting.caller = .serverSpecializePre) (fds : List Int32) :
    setting.report fds = encodeI32 (Int32.ofNat (failedIds setting.loads fds).length) ++
        (failedIds setting.loads fds).flatMap encodeI32 := by
  rw [Setting.report, isServer]
  dsimp only
  split
  · rename_i empty
    rw [empty, writeInt_eq setting.opened]
    rfl
  · rw [writeVector, writeInt_eq setting.opened]

theorem idsOf_flatMap (ids : List Int32) : idsOf ids.length (ids.flatMap encodeI32) = ids := by
  have reads := Codec.Reads.many (fun id (_ : id ∈ ids) => reads_decodeI32 id) []
  rw [append_nil] at reads
  rw [idsOf, reads]

/-- The daemon reads the report of the client. -/
theorem reaches_report {ids : List Int32} (small : ids.length < 2 ^ 31) (fds : List Int32) :
    Reaches (client setting) (daemon setting)
      ⟨.done fds, .readCount, [], encodeI32 (Int32.ofNat ids.length) ++ ids.flatMap encodeI32,
        true, false⟩
      ⟨.done fds, .done (unloadedNames setting.later ids), [], [], true, true⟩ := by
  have count : daemon setting .readCount
      (encodeI32 (Int32.ofNat ids.length) ++ ids.flatMap encodeI32) true =
        some ⟨.readIds ids.length, (encodeI32 (Int32.ofNat ids.length)).length, [], false⟩ := by
    rw [daemon]
    apply receive_append (length_encodeI32 _)
    exact lengthThen_encodeI32 small _
  have bytes : (ids.flatMap encodeI32).length = ids.length * 4 := by
    rw [length_flatMap]
    simp only [length_encodeI32, map_const', sum_replicate, smul_eq_mul]
  have values : daemon setting (.readIds ids.length) (ids.flatMap encodeI32) true =
      some ⟨.done (unloadedNames setting.later ids), (ids.flatMap encodeI32).length, [], true⟩ := by
    rw [daemon]
    apply receive_all bytes
    rw [idsOf_flatMap]
  have read := @reaches_right_silent _ _ _ _ (client setting) (daemon setting) (.done fds) _ _ []
    _ _ _ _ count
  have marked := @reaches_right_silent _ _ _ _ (client setting) (daemon setting) (.done fds) _ _ []
    _ _ _ _ values
  rw [drop_length] at marked
  exact read.trans marked

/-- The names the daemon marks after a client with these descriptors. -/
def Setting.unloaded (setting : Setting) (fds : List Int32) : List (List UInt8) :=
  match setting.caller with
  | .appSpecializePre => []
  | .serverSpecializePre => unloadedNames setting.later (failedIds setting.loads fds)

theorem length_failedIds_le (loads : Int32 → Bool) (fds : List Int32) :
    (failedIds loads fds).length ≤ fds.length := by
  rw [failedIds, length_map]
  exact (length_filter_le _ _).trans_eq length_zipIdx

/-- After the descriptors were sent, both get to their ends. -/
theorem reaches_end {text : String} (decoded : fromUtf8 setting.process = some text)
    {fds : List Int32} (small : fds.length < 2 ^ 31) :
    ∃ rest, Reaches (client setting) (daemon setting)
      ⟨.runModules fds, .checkServer setting.uid text, [], [], false, false⟩
      ⟨.done fds, .done (setting.unloaded fds), [], rest, true, true⟩ := by
  by_cases other : setting.uid ≠ 1000 ∨ text ≠ "system_server"
  · have isApp : setting.caller = .appSpecializePre := by
      cases isCaller : setting.caller with
      | appSpecializePre => rfl
      | serverSpecializePre =>
        rcases setting.isServer isCaller with ⟨isUid, isProcess⟩
        rw [isProcess] at decoded
        cases decoded
        rcases other with notUid | notName
        · exact absurd isUid notUid
        · exact absurd rfl notName
    have closes : daemon setting (.checkServer setting.uid text) [] false =
        some ⟨.done [], 0, [], true⟩ := by
      rw [daemon, if_pos other]
    have marks : setting.unloaded fds = [] := by
      rw [Setting.unloaded, isApp]
    rw [marks]
    exact ⟨_, (reaches_right_silent closes).trans (reaches_done _ _ _ _)⟩
  · have waits : daemon setting (.checkServer setting.uid text) [] false =
        some ⟨.readCount, 0, [], false⟩ := by
      rw [daemon, if_neg other]
    have asked := (reaches_right_silent waits).trans (@reaches_done setting fds .readCount [] false)
    cases isCaller : setting.caller with
    | appSpecializePre =>
      have nothing : setting.report fds = [] := by
        rw [Setting.report, isCaller]
      have ends : daemon setting .readCount [] true = some fails := by
        rfl
      have marks : setting.unloaded fds = [] := by
        rw [Setting.unloaded, isCaller]
      rw [nothing] at asked
      rw [marks]
      exact ⟨_, asked.trans (reaches_right_silent ends)⟩
    | serverSpecializePre =>
      have marks : setting.unloaded fds =
          unloadedNames setting.later (failedIds setting.loads fds) := by
        rw [Setting.unloaded, isCaller]
      have few := length_failedIds_le setting.loads fds
      rw [report_eq isCaller] at asked
      rw [marks]
      exact ⟨_, asked.trans (reaches_report (by omega) fds)⟩

/-- A list that fits is sent in one message. -/
theorem sendFds_eq {fds : List Int32} (fits : fds.length ≤ maxFds) :
    ∃ word, sendFds fds = some [⟨word, fds⟩] := by
  rw [sendFds]
  by_cases empty : fds.length = 0
  · rw [length_eq_zero_iff.mp empty]
    exact ⟨0, rfl⟩
  · rw [if_neg empty, if_neg (not_lt_of_ge fits)]
    exact ⟨_, rfl⟩

theorem unloaded_nil (setting : Setting) : setting.unloaded [] = [] := by
  rw [Setting.unloaded]
  cases setting.caller with
  | appSpecializePre => rfl
  | serverSpecializePre => cases setting.later <;> rfl

/-- Both programs end, the client with these descriptors. -/
def Ends (setting : Setting) (fds : List Int32) : Prop :=
  ∃ rest, Reaches (client setting) (daemon setting) start
    ⟨.done fds, .done (setting.unloaded fds), [], rest, true, true⟩

theorem ends_of_invalid (invalid : fromUtf8 setting.process = none) : Ends setting [] := by
  rcases reaches_invalid invalid with ⟨rest, closed⟩
  rw [Ends, unloaded_nil]
  exact ⟨_, closed.trans (reaches_done _ _ _ _)⟩

section

variable (decoded : fromUtf8 setting.process = some text)

include decoded

theorem ends_of_not_load (notLoad : shouldLoadModule setting.flags = false) : Ends setting [] := by
  have flags := reaches_sendFds decoded
  have silent : daemon setting (.sendFds setting.uid text setting.is64Bit) [] false =
      some ⟨.checkServer setting.uid text, 0, [], false⟩ := by
    rw [daemon, notLoad, if_neg Bool.false_ne_true]
  rcases @reaches_end _ _ decoded [] (Nat.two_pow_pos 31) with ⟨rest, ends⟩
  rw [afterFlags, notLoad] at flags
  exact ⟨rest, (flags.trans (reaches_right_silent silent)).trans ends⟩

section

variable (load : shouldLoadModule setting.flags = true)
include load

/-- Without a list the daemon sends nothing. -/
theorem reaches_unset (unset : setting.modules = none) :
    Reaches (client setting) (daemon setting) start
      ⟨.recvFds, .checkServer setting.uid text, [], [], false, false⟩ := by
  have flags := reaches_sendFds decoded
  have silent : daemon setting (.sendFds setting.uid text setting.is64Bit) [] false =
      some ⟨.checkServer setting.uid text, 0, [], false⟩ := by
    rw [daemon, load, if_pos rfl, unset]
  rw [afterFlags, load] at flags
  exact flags.trans (reaches_right_silent silent)

theorem ends_of_unset (unset : setting.modules = none)
    (other : setting.uid ≠ 1000 ∨ text ≠ "system_server") : Ends setting [] := by
  have closes : daemon setting (.checkServer setting.uid text) [] false =
      some ⟨.done [], 0, [], true⟩ := by
    rw [daemon, if_pos other]
  have fds : client setting .recvFds [] true = some ⟨.runModules [], 0, [], false⟩ := rfl
  rw [Ends, unloaded_nil]
  exact ⟨_, (((reaches_unset decoded load unset).trans (reaches_right_silent closes)).trans
    (reaches_left_silent fds)).trans (reaches_done _ _ _ _)⟩

theorem ends_of_sent (isList : setting.modules = some list) :
    Ends setting (getModuleFds setting.is64Bit list) := by
  have few : (getModuleFds setting.is64Bit list).length ≤ maxFds := by
    rw [getModuleFds, length_map]
    exact setting.fits list isList
  rcases sendFds_eq few with ⟨word, sent⟩
  have flags := reaches_sendFds decoded
  have sends : daemon setting (.sendFds setting.uid text setting.is64Bit) [] false =
      some ⟨.checkServer setting.uid text, 0, [⟨word, getModuleFds setting.is64Bit list⟩],
        false⟩ := by
    rw [daemon, load, if_pos rfl, isList]
    dsimp only
    rw [sent]
  rcases reaches_end decoded (lt_of_le_of_lt few (by decide)) with ⟨rest, ends⟩
  rw [afterFlags, load] at flags
  exact ⟨rest, (flags.trans (reaches_down sends rfl)).trans ends⟩

end

end

/-- The descriptors the client gets. -/
def Setting.received (setting : Setting) : List Int32 :=
  match setting.modules with
  | none => []
  | some list =>
    if shouldLoadModule setting.flags ∧ (fromUtf8 setting.process).isSome then
      getModuleFds setting.is64Bit list
    else []

/-- Unless the setting is stuck, both programs end, the client with the descriptors of
the modules. -/
theorem ends_of_not_stuck (works : ¬ setting.Stuck) : Ends setting setting.received := by
  rw [Setting.received]
  cases decoded : fromUtf8 setting.process with
  | none =>
    cases setting.modules with
    | none => exact ends_of_invalid decoded
    | some list =>
      dsimp only
      rw [if_neg (by simp)]
      exact ends_of_invalid decoded
  | some text =>
    cases load : shouldLoadModule setting.flags with
    | false =>
      cases setting.modules with
      | none => exact ends_of_not_load decoded load
      | some list =>
        dsimp only
        exact ends_of_not_load decoded load
    | true =>
      cases isList : setting.modules with
      | none =>
        have other : setting.uid ≠ 1000 ∨ text ≠ "system_server" := by
          by_contra server
          push Not at server
          apply works
          refine ⟨isList, load, server.1, ?_⟩
          rw [← server.2, utf8_of_fromUtf8_eq_some decoded]
        exact ends_of_unset decoded load isList other
      | some list =>
        dsimp only
        exact ends_of_sent decoded load isList

/-- In a setting that is stuck both programs come to wait for each other. -/
theorem deadlock_of_stuck (stuck : setting.Stuck) :
    ∃ config, Reaches (client setting) (daemon setting) start config ∧
      Deadlock (client setting) (daemon setting) config := by
  rcases stuck with ⟨unset, load, isUid, isProcess⟩
  have decoded : fromUtf8 setting.process = some "system_server" := by
    rw [isProcess, fromUtf8_utf8]
  have waits : daemon setting (.checkServer setting.uid "system_server") [] false =
      some ⟨.readCount, 0, [], false⟩ := by
    rw [daemon, if_neg (by simp [isUid])]
  exact ⟨_, (reaches_unset decoded load unset).trans (reaches_right_silent waits), rfl, rfl, rfl,
    rfl⟩

end Runs

/-! ## Every run -/

/-- The names found under the places of failed descriptors are those of the modules. -/
theorem names_failedIds {setting : Setting} {all : List ModuleInfo} (small : all.length < 2 ^ 31)
    (isRest : all.drop place = list) :
    ((((getModuleFds setting.is64Bit list).zipIdx place).filter
        fun entry => !setting.loads entry.1).map fun entry => Int32.ofNat entry.2).filterMap
      (fun id => if id.toInt < 0 then none else all[id.toInt.toNat]?.map ModuleInfo.name) =
    (list.filter fun module => !setting.loads (moduleFd setting.is64Bit module)).map
      ModuleInfo.name := by
  induction list generalizing place with
  | nil => rfl
  | cons module rest ih =>
    have inside : place < all.length := by
      by_contra outside
      rw [drop_of_length_le (not_lt.mp outside)] at isRest
      cases isRest
    rw [drop_eq_getElem_cons inside, List.cons.injEq] at isRest
    have number : (Int32.ofNat place).toInt = place := Int32.toInt_ofNat_of_lt (inside.trans small)
    have found : all[(Int32.ofNat place).toInt.toNat]? = some module := by
      rw [number, Int.toNat_natCast, getElem?_eq_getElem inside, isRest.1]
    have nonneg : ¬ (Int32.ofNat place).toInt < 0 := by
      omega
    have later := ih isRest.2
    rw [getModuleFds] at later
    rw [getModuleFds, map_cons, zipIdx_cons]
    cases loads : setting.loads (moduleFd setting.is64Bit module) with
    | true =>
      rw [filter_cons_of_neg (by simp [loads]), filter_cons_of_neg (by simp [loads])]
      exact later
    | false =>
      rw [filter_cons_of_pos (by simp [loads]), filter_cons_of_pos (by simp [loads]),
        map_cons, map_cons, filterMap_cons, found, if_neg nonneg,
        Option.map_some, later]

theorem unloaded_received (setting : Setting) :
    setting.unloaded setting.received = setting.failedModules := by
  cases isCaller : setting.caller with
  | appSpecializePre => rw [Setting.unloaded, Setting.failedModules, isCaller]
  | serverSpecializePre =>
    cases isList : setting.modules with
    | none =>
      rw [Setting.received, isList, unloaded_nil, Setting.failedModules, isCaller, isList]
    | some list =>
      have valid : (fromUtf8 setting.process).isSome := by
        rw [(setting.isServer isCaller).2]
        rfl
      rw [Setting.received, Setting.failedModules, isCaller, isList]
      dsimp only
      cases load : shouldLoadModule setting.flags with
      | false =>
        rw [if_neg (by simp), if_neg Bool.false_ne_true, unloaded_nil]
      | true =>
        have small := lt_of_le_of_lt (setting.fits list isList) (by decide : maxFds < 2 ^ 31)
        rw [if_pos ⟨rfl, valid⟩, Setting.unloaded, isCaller]
        rw [setting.once list isList]
        exact names_failedIds small rfl

theorem received_of_place {setting : Setting} {fd : Int32}
    (found : setting.received[place]? = some fd) :
    ∃ list module, setting.modules = some list ∧ list[place]? = some module ∧
      fd = moduleFd setting.is64Bit module := by
  rw [Setting.received] at found
  split at found
  · cases found
  · rename_i list isList
    split at found
    · rw [getModuleFds, getElem?_map] at found
      rcases Option.map_eq_some_iff.mp found with ⟨module, isModule, isFd⟩
      exact ⟨list, module, isList, isModule, isFd.symm⟩
    · cases found

/-- The request works exactly unless the module list is not set while `system_server` is
to load modules. -/
theorem works_iff_not_stuck (setting : Setting) : Works setting ↔ ¬ setting.Stuck := by
  constructor
  · intro works stuck
    rcases deadlock_of_stuck stuck with ⟨config, reaches, deadlock⟩
    exact works.live config reaches deadlock
  · intro notStuck
    rcases ends_of_not_stuck notStuck with ⟨rest, ends⟩
    have toEnd : ∀ config, Reaches (client setting) (daemon setting) start config →
        Reaches (client setting) (daemon setting) config
          ⟨.done setting.received, .done (setting.unloaded setting.received), [], rest, true,
            true⟩ :=
      fun config => reaches_final (steady_client setting) (steady_daemon setting) ends rfl rfl
    refine ⟨?_, ?_, ?_⟩
    · intro config reaches deadlock
      have isEnd := eq_final_of_deadlock (steady_client setting) (steady_daemon setting) ends rfl
        rfl reaches deadlock
      have isOpen := deadlock.1
      rw [isEnd] at isOpen
      cases isOpen
    · intro config fds reaches isDone place fd found
      have finished : ∀ input closed, client setting config.left input closed = none := by
        intro input closed
        rw [isDone, client]
      have same := left_of_finished finished (toEnd config reaches)
      rw [isDone, Client.done.injEq] at same
      rw [← same] at found
      exact received_of_place found
    · intro config unloaded reaches isDone
      have finished : ∀ input closed, daemon setting config.right input closed = none := by
        intro input closed
        rw [isDone, daemon]
      have same := right_of_finished finished (toEnd config reaches)
      rw [isDone, Daemon.done.injEq] at same
      rw [← same, unloaded_received]

/-- `system_server` asks before the module list is set. -/
def unsetList : Setting where
  fd := 3
  opened := by decide
  caller := .serverSpecializePre
  uid := 1000
  process := utf8 "system_server"
  short := by decide +kernel
  isServer _ := ⟨rfl, rfl⟩
  is64Bit := true
  flags := 0
  modules := none
  later := none
  once := nofun
  fits := nofun
  loads _ := true

/-- The daemon waits for a report and `system_server` for modules. -/
theorem deadlock_unsetList : ∃ config, Reaches (client unsetList) (daemon unsetList) start config ∧
      Deadlock (client unsetList) (daemon unsetList) config :=
  deadlock_of_stuck ⟨rfl, rfl, rfl, rfl⟩

end Magisk.Core.Zygisk.GetInfo
