import AtaCapture.Ata.Access

/-!
Names of registers and commands. A table maps codes to names, and of several entries with one
code the last counts. Reconstruction reads names from the tables it is given and nothing else
from them, so other command sets can be put in their place.
-/

namespace AtaCapture.Ata

structure NameTable where
  entries : List (BitVec 8 × String)
  deriving DecidableEq, Repr, Inhabited

namespace NameTable

def ofList (entries : List (BitVec 8 × String)) : NameTable := { entries }

def empty : NameTable := ofList []

def find? (t : NameTable) (code : BitVec 8) : Option String :=
  (t.entries.reverse.find? fun entry => entry.1 = code).map Prod.snd

/-- What a table has for a code: the name in the last of its entries with the code, and no name
if it has no entry with it. -/
def Entry (t : NameTable) (code : BitVec 8) : Option String → Prop
  | some name => ∃ before after,
      t.entries = before ++ (code, name) :: after ∧ ∀ entry ∈ after, entry.1 ≠ code
  | none => ∀ entry ∈ t.entries, entry.1 ≠ code

theorem find?_eq_iff {t : NameTable} {code : BitVec 8} {name : Option String} :
    t.find? code = name ↔ t.Entry code name := by
  cases name with
  | none =>
    rw [find?, Option.map_eq_none_iff, List.find?_eq_none, Entry]
    simp only [List.mem_reverse, decide_eq_true_eq, ne_eq]
  | some name =>
    have hsplit : t.find? code = some name ↔ ∃ before after,
        t.entries.reverse = before ++ (code, name) :: after ∧
          ∀ entry ∈ before, entry.1 ≠ code := by
      rw [find?, Option.map_eq_some_iff]
      simp [List.find?_eq_some_iff_append]
    rw [hsplit, Entry]
    constructor
    · rintro ⟨after, before, hentries, hlast⟩
      refine ⟨before.reverse, after.reverse, ?_,
        fun entry h => hlast entry (List.mem_reverse.mp h)⟩
      rw [← List.reverse_reverse t.entries, hentries]
      simp
    · rintro ⟨before, after, hentries, hlast⟩
      refine ⟨after.reverse, before.reverse, ?_,
        fun entry h => hlast entry (List.mem_reverse.mp h)⟩
      simp [hentries]

end NameTable

/-- Names of registers that differ with the direction of the access, and of both command
sets. -/
structure Names where
  written : NameTable
  readBack : NameTable
  commands : NameTable
  packets : NameTable
  deriving DecidableEq, Repr, Inhabited

namespace Names

def empty : Names :=
  { written := .empty, readBack := .empty, commands := .empty, packets := .empty }

def register (n : Names) (direction : Direction) (address : BitVec 8) : Option String :=
  match direction with
  | .write => n.written.find? address
  | .read => n.readBack.find? address

def command (n : Names) (opcode : BitVec 8) : Option String := n.commands.find? opcode

def packet (n : Names) (opcode : BitVec 8) : Option String := n.packets.find? opcode

end Names

/-! ### The standard names -/

def standardWritten : NameTable := .ofList
  [(0x0E, "DEVICE_CONTROL"), (0x10, "DATA"), (0x11, "FEATURE"), (0x12, "SECTOR_COUNT"),
    (0x13, "LBA_LOW"), (0x14, "LBA_MID"), (0x15, "LBA_HIGH"), (0x16, "DEVICE"),
    (0x17, "COMMAND")]

def standardReadBack : NameTable := .ofList
  [(0x0E, "ALT_STATUS"), (0x10, "DATA"), (0x11, "ERROR"), (0x12, "SECTOR_COUNT"),
    (0x13, "LBA_LOW"), (0x14, "LBA_MID"), (0x15, "LBA_HIGH"), (0x16, "DEVICE"),
    (0x17, "STATUS")]

def standardCommands : NameTable := .ofList
  [(0x00, "NOP"), (0x03, "CFA_REQUEST_EXTENDED_ERROR"), (0x08, "DEVICE_RESET"),
    (0x20, "READ_SECTORS"), (0x24, "READ_SECTORS_EXT"), (0x25, "READ_DMA_EXT"),
    (0x26, "READ_DMA_QUEUED_EXT"), (0x27, "READ_NATIVE_MAX_ADDRESS_EXT"),
    (0x29, "READ_MULTIPLE_EXT"), (0x2F, "READ_LOG_EXT"), (0x30, "WRITE_SECTORS"),
    (0x34, "WRITE_SECTORS_EXT"), (0x35, "WRITE_DMA_EXT"), (0x36, "WRITE_DMA_QUEUED_EXT"),
    (0x37, "SET_MAX_ADDRESS_EXT"), (0x38, "CFA_WRITE_SECTORS_WOUT_ERASE"),
    (0x39, "WRITE_MULTIPLE_EXT"), (0x3F, "WRITE_LOG_EXT"), (0x40, "READ_VERIFY_SECTORS"),
    (0x42, "READ_VERIFY_SECTORS_EXT"), (0x70, "SEEK"), (0x87, "CFA_TRANSLATE_SECTOR"),
    (0x90, "EXECUTE_DEVICE_DIAGNOSTIC"), (0x91, "INIT_DEV_PARAMS"),
    (0x92, "DOWNLOAD_MICROCODE"), (0xA0, "PACKET"), (0xA1, "IDENTIFY_PACKET_DEVICE"),
    (0xA2, "SERVICE"), (0xB0, "SMART"), (0xB1, "DEVICE_CONFIGURATION"),
    (0xC0, "CFA_ERASE_SECTORS"), (0xC4, "READ_MULTIPLE"), (0xC5, "WRITE_MULTIPLE"),
    (0xC6, "SET_MULTIPLE_MODE"), (0xC7, "READ_DMA_QUEUED"), (0xC8, "READ_DMA"),
    (0xCA, "WRITE_DMA"), (0xCC, "WRITE_DMA_QUEUED"), (0xCD, "CFA_WRITE_MULTIPLE_WOUT_ERASE"),
    (0xD1, "CHECK_MEDIA_CARD_TYPE"), (0xDA, "GET_MEDIA_STATUS"), (0xDE, "MEDIA_LOCK"),
    (0xDF, "MEDIA_UNLOCK"), (0xE0, "STANDBY_IMMEDIATE"), (0xE1, "IDLE_IMMEDIATE"),
    (0xE2, "STANDBY"), (0xE3, "IDLE"), (0xE4, "READ_BUFFER"), (0xE5, "CHECK_POWER_MODE"),
    (0xE6, "SLEEP"), (0xE7, "FLUSH_CACHE"), (0xE8, "WRITE_BUFFER"), (0xEA, "FLUSH_CACHE_EXT"),
    (0xEC, "IDENTIFY_DEVICE"), (0xED, "MEDIA_EJECT"), (0xEF, "SET_FEATURES"),
    (0xF1, "SECURITY_SET_PASSWORD"), (0xF2, "SECURITY_UNLOCK"),
    (0xF3, "SECURITY_ERASE_PREPARE"), (0xF4, "SECURITY_ERASE_UNIT"),
    (0xF5, "SECURITY_FREEZE_LOCK"), (0xF6, "SECURITY_DISABLE_PASSWORD"),
    (0xF8, "READ_NATIVE_MAX_ADDRESS"), (0xF9, "SET_MAX_ADDRESS")]

def standardPackets : NameTable := .ofList
  [(0x00, "TEST UNIT READY"), (0x03, "REQUEST SENSE"), (0x04, "FORMAT UNIT"),
    (0x12, "INQUIRY"), (0x1B, "START STOP UNIT"), (0x1E, "PREVENT ALLOW MEDIUM REMOVAL"),
    (0x23, "READ FORMAT CAPACITIES"), (0x25, "READ CAPACITY"), (0x28, "READ (10)"),
    (0x2A, "WRITE (10)"), (0x2B, "SEEK (10)"), (0x2E, "WRITE AND VERIFY (10)"),
    (0x2F, "VERIFY (10)"), (0x35, "SYNCHRONIZE CACHE"), (0x3B, "WRITE BUFFER"),
    (0x3C, "READ BUFFER"), (0x43, "READ TOC/PMA/ATIP"), (0x46, "GET CONFIGURATION"),
    (0x4A, "GET EVENT STATUS NOTIFICATION"), (0x51, "READ DISC INFORMATION"),
    (0x52, "READ TRACK INFORMATION"), (0x53, "RESERVE TRACK"), (0x54, "SEND OPC INFORMATION"),
    (0x55, "MODE SELECT (10)"), (0x58, "REPAIR TRACK"), (0x5A, "MODE SENSE (10)"),
    (0x5B, "CLOSE TRACK SESSION"), (0x5C, "READ BUFFER CAPACITY"), (0x5D, "SEND CUE SHEET"),
    (0xA0, "REPORT LUNS"), (0xA1, "BLANK"), (0xA2, "SECURITY PROTOCOL IN"), (0xA3, "SEND KEY"),
    (0xA4, "REPORT KEY"), (0xA6, "LOAD/UNLOAD MEDIUM"), (0xA7, "SET READ AHEAD"),
    (0xA8, "READ (12)"), (0xAA, "WRITE (12)"), (0xAB, "READ MEDIA SERIAL NUMBER"),
    (0xAC, "GET PERFORMANCE"), (0xAD, "READ DISC STRUCTURE"), (0xB5, "SECURITY PROTOCOL OUT"),
    (0xB6, "SET STREAMING"), (0xB9, "READ CD MSF"), (0xBB, "SET CD SPEED"),
    (0xBD, "MECHANISM STATUS"), (0xBE, "READ CD"), (0xBF, "SEND DISC STRUCTURE")]

def Names.standard : Names where
  written := standardWritten
  readBack := standardReadBack
  commands := standardCommands
  packets := standardPackets

end AtaCapture.Ata
