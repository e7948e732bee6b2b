import Anticheat.Lib.Buffer
import Anticheat.Render.Check
import Anticheat.Report.Body

/-!
# Looking up a symbol in a file

`elf_find_symbol_offset` reads the section headers, the string tables, the dynamic symbols and the
program headers of a file into buffers of the sizes that the file itself declares. Whatever the file
says, no access leaves a buffer, and what is found is the first entry of the symbol's name with its
place in an executable segment.
-/

namespace Anticheat.Render

open Hash Buffer
open Report (bytes)

/-! ### The records of a file -/

/-- `AC_ELF_MAX_SHNUM` -/
def acElfMaxShnum : UInt64 := 2048

/-- `AC_ELF_MAX_STRTAB` -/
def acElfMaxStrtab : UInt64 := 4 * 1024 * 1024

/-- `AC_ELF_MAX_SYMS` -/
def acElfMaxSyms : UInt32 := 500000

/-- `AC_ELF_MAX_PHNUM` -/
def acElfMaxPhnum : UInt64 := 256

/-- `Elf64_Ehdr`, 64 bytes -/
structure Elf64Ehdr where
  magic : Bytes
  eiClass : UInt64
  eiData : UInt64
  phoff : UInt64
  shoff : UInt64
  phentsize : UInt64
  phnum : UInt64
  shentsize : UInt64
  shnum : UInt64
  shstrndx : UInt64
  deriving DecidableEq, Repr

def Elf64Ehdr.decode (b : Bytes) : Elf64Ehdr where
  magic := b.take 4
  eiClass := field b 4 1
  eiData := field b 5 1
  phoff := field b 32 8
  shoff := field b 40 8
  phentsize := field b 54 2
  phnum := field b 56 2
  shentsize := field b 58 2
  shnum := field b 60 2
  shstrndx := field b 62 2

/-- `Elf64_Shdr`, 64 bytes -/
structure Elf64Shdr where
  name : UInt64
  type : UInt64
  offset : UInt64
  size : UInt64
  entsize : UInt64
  deriving DecidableEq, Repr

def Elf64Shdr.decode (b : Bytes) : Elf64Shdr where
  name := field b 0 4
  type := field b 4 4
  offset := field b 24 8
  size := field b 32 8
  entsize := field b 56 8

/-- `Elf64_Sym`, 24 bytes -/
structure Elf64Sym where
  name : UInt64
  value : UInt64
  size : UInt64
  deriving DecidableEq, Repr

def Elf64Sym.decode (b : Bytes) : Elf64Sym where
  name := field b 0 4
  value := field b 8 8
  size := field b 16 8

/-- `Elf64_Phdr`, 56 bytes -/
structure Elf64Phdr where
  type : UInt64
  flags : UInt64
  offset : UInt64
  vaddr : UInt64
  filesz : UInt64
  deriving DecidableEq, Repr

def Elf64Phdr.decode (b : Bytes) : Elf64Phdr where
  type := field b 0 4
  flags := field b 4 4
  offset := field b 8 8
  vaddr := field b 16 8
  filesz := field b 32 8

/-- `SHT_DYNSYM` -/
def shtDynsym : UInt64 := 11

/-- `SHT_STRTAB` -/
def shtStrtab : UInt64 := 3

/-- `PT_LOAD` -/
def ptLoad : UInt64 := 1

/-- `PF_X` -/
def pfX : UInt64 := 1

/-! ### The parser -/

/-- The most that one `pread` returns. -/
def maxRwCount : ℕ := 0x7ffff000

/-- A buffer after `pread(fd, buf, sz, off) == (ssize_t)sz`. An offset or a count that is negative
as a signed number is an error, which the comparison takes for a success if the count is -1; the
buffer is not filled then. -/
def preadFull (content : Bytes) (off sz : UInt64) : Read Bytes :=
  if off.toNat < 2 ^ 63 ∧ sz.toNat < 2 ^ 63 then
    let got := (content.drop off.toNat).take (min sz.toNat maxRwCount)
    if got.length = sz.toNat then .ok got else .error .refuse
  else if sz = 0xffffffffffffffff then .ok []
  else .error .refuse

/-- Which calls of `malloc` succeed. -/
structure ElfAlloc where
  shdrs : Bool
  shstrtab : Bool
  syms : Bool
  dynstrtab : Bool
  phdrs : Bool

/-- The loop of `elf_vaddr_to_file_off`. -/
def phdrLoop (phdrs : Bytes) (vaddr : UInt64) : List ℕ → Read AcElfLoc
  | [] => .error .refuse
  | i :: is => do
    let ph ← row Elf64Phdr.decode 56 phdrs i
    if ph.type ≠ ptLoad || ph.flags &&& pfX = 0 then phdrLoop phdrs vaddr is
    else if vaddr < ph.vaddr || ph.filesz ≤ vaddr - ph.vaddr then phdrLoop phdrs vaddr is
    else if 0xffffffffffffffff - ph.filesz < ph.offset then phdrLoop phdrs vaddr is
    else .ok ⟨ph.offset + (vaddr - ph.vaddr), ph.offset, ph.offset + ph.filesz⟩

/-- `elf_vaddr_to_file_off` -/
def elfVaddrToFileOff (alloc : ElfAlloc) (content : Bytes) (eh : Elf64Ehdr) (vaddr : UInt64) :
    Read AcElfLoc := do
  require !(eh.phentsize ≠ 56 || eh.phnum = 0 || acElfMaxPhnum < eh.phnum)
  require alloc.phdrs
  let phdrs ← preadFull content eh.phoff (eh.phnum * 56)
  phdrLoop phdrs vaddr (List.range eh.phnum.toNat)

/-- `sh_type == type && strcmp(shstrtab + sh_name, name) == 0` -/
def isNamed (shstrtab : Bytes) (sh : Elf64Shdr) (type : UInt64) (name : Bytes) : Read Bool :=
  if sh.type = type then strcmp shstrtab sh.name.toNat name else .ok false

/-- The loop over the sections, with the last `.dynsym` and `.dynstr` so far. -/
def sectionLoop (shdrs shstrtab : Bytes) (strSize : UInt64) :
    List ℕ → Option Elf64Shdr × Option Elf64Shdr → Read (Option Elf64Shdr × Option Elf64Shdr)
  | [], found => .ok found
  | i :: is, found => do
    let sh ← row Elf64Shdr.decode 64 shdrs i
    if strSize ≤ sh.name then sectionLoop shdrs shstrtab strSize is found
    else do
      let ended ← memchr shstrtab sh.name.toNat (strSize - sh.name).toNat
      if !ended then sectionLoop shdrs shstrtab strSize is found
      else do
        let isDynsym ← isNamed shstrtab sh shtDynsym (bytes ".dynsym")
        if isDynsym then sectionLoop shdrs shstrtab strSize is (some sh, found.2)
        else do
          let isDynstr ← isNamed shstrtab sh shtStrtab (bytes ".dynstr")
          if isDynstr then sectionLoop shdrs shstrtab strSize is (found.1, some sh)
          else sectionLoop shdrs shstrtab strSize is found

/-- The loop over the symbols. -/
def symLoop (alloc : ElfAlloc) (content : Bytes) (eh : Elf64Ehdr) (syms dynstrtab : Bytes)
    (strSize : UInt64) (symbol : Bytes) : List ℕ → Read (AcElfLoc × UInt64)
  | [] => .error .refuse
  | i :: is => do
    let sym ← row Elf64Sym.decode 24 syms i
    if sym.name = 0 || strSize ≤ sym.name || sym.value = 0 then
      symLoop alloc content eh syms dynstrtab strSize symbol is
    else do
      let ended ← memchr dynstrtab sym.name.toNat (strSize - sym.name).toNat
      if !ended then symLoop alloc content eh syms dynstrtab strSize symbol is
      else do
        let same ← strcmp dynstrtab sym.name.toNat symbol
        if same then (elfVaddrToFileOff alloc content eh sym.value).map fun loc => (loc, sym.size)
        else symLoop alloc content eh syms dynstrtab strSize symbol is

/-- The part of `elf_find_symbol_offset` that finds the symbol table and its strings. -/
def findSections (alloc : ElfAlloc) (content : Bytes) (eh : Elf64Ehdr) :
    Read (Option Elf64Shdr × Option Elf64Shdr) := do
  require alloc.shdrs
  let shdrs ← preadFull content eh.shoff (eh.shnum * 64)
  let shstr ← row Elf64Shdr.decode 64 shdrs eh.shstrndx.toNat
  require !(shstr.size = 0 || acElfMaxStrtab < shstr.size)
  require alloc.shstrtab
  let shstrtab ← preadFull content shstr.offset shstr.size
  sectionLoop shdrs shstrtab shstr.size (List.range eh.shnum.toNat) (none, none)

/-- The part of `elf_find_symbol_offset` that looks the symbol up. -/
def findSymbol (alloc : ElfAlloc) (content : Bytes) (eh : Elf64Ehdr) (dynsym dynstr : Elf64Shdr)
    (symbol : Bytes) : Read (AcElfLoc × UInt64) := do
  require !(dynsym.entsize ≠ 24 || dynstr.size = 0 || acElfMaxStrtab < dynstr.size)
  let nsyms := (dynsym.size / 24).toUInt32
  require !(nsyms = 0 || acElfMaxSyms < nsyms)
  require (alloc.syms && alloc.dynstrtab)
  let syms ← preadFull content dynsym.offset dynsym.size
  let dynstrtab ← preadFull content dynstr.offset dynstr.size
  symLoop alloc content eh syms dynstrtab dynstr.size symbol (List.range nsyms.toNat)

/-- `elf_find_symbol_offset`: the location of the symbol and its `st_size`. -/
def elfFindSymbolOffset (alloc : ElfAlloc) (symbol content : Bytes) :
    Read (AcElfLoc × UInt64) := do
  let ident ← preadFull content 0 64
  let eh := Elf64Ehdr.decode ident
  require (eh.magic = [0x7f, 0x45, 0x4c, 0x46])
  require (eh.eiClass = 2 && eh.eiData = 1)
  require !(eh.shentsize ≠ 64 || eh.shnum = 0 || acElfMaxShnum < eh.shnum ||
    eh.shnum ≤ eh.shstrndx)
  let found ← findSections alloc content eh
  match found with
  | (some dynsym, some dynstr) => findSymbol alloc content eh dynsym dynstr symbol
  | _ => .error .refuse

/-! ### What the tables of a file say -/

/-- A part of the file. -/
def part (content : Bytes) (off sz : UInt64) : Bytes := (content.drop off.toNat).take sz.toNat

/-- The section headers. -/
def sections (content : Bytes) (eh : Elf64Ehdr) : List Elf64Shdr :=
  rows Elf64Shdr.decode 64 eh.shnum.toNat (part content eh.shoff (eh.shnum * 64))

/-- The program headers. -/
def segments (content : Bytes) (eh : Elf64Ehdr) : List Elf64Phdr :=
  rows Elf64Phdr.decode 56 eh.phnum.toNat (part content eh.phoff (eh.phnum * 56))

/-- A section of the given type and name, by the string table for section names. -/
def IsSection (content : Bytes) (eh : Elf64Ehdr) (type : UInt64) (name : Bytes)
    (sh : Elf64Shdr) : Prop :=
  sh ∈ sections content eh ∧ sh.type = type ∧
    ∃ shstr, (sections content eh)[eh.shstrndx.toNat]? = some shstr ∧
      cstr (part content shstr.offset shstr.size) sh.name.toNat = some name

/-- An entry of a symbol table with a name and a value, whose name is the given one. -/
def Elf64Sym.Named (strtab symbol : Bytes) (sym : Elf64Sym) : Prop :=
  sym.name ≠ 0 ∧ sym.value ≠ 0 ∧ cstr strtab sym.name.toNat = some symbol

/-- An executable segment holds an address, and `loc` is its place in the file. -/
structure Elf64Phdr.Holds (ph : Elf64Phdr) (vaddr : UInt64) (loc : AcElfLoc) : Prop where
  load : ph.type = ptLoad
  exec : ph.flags &&& pfX ≠ 0
  vaddr_le : ph.vaddr.toNat ≤ vaddr.toNat
  segOff_eq : loc.segOff = ph.offset
  segEnd_eq : loc.segEnd.toNat = ph.offset.toNat + ph.filesz.toNat
  fileOff_sub : loc.fileOff.toNat - loc.segOff.toNat = vaddr.toNat - ph.vaddr.toNat
  segOff_le : loc.segOff.toNat ≤ loc.fileOff.toNat
  lt_segEnd : loc.fileOff.toNat < loc.segEnd.toNat

/-- What `elf_find_symbol_offset` has found. -/
def Located (content symbol : Bytes) (loc : AcElfLoc) (size : UInt64) : Prop :=
  let eh := Elf64Ehdr.decode (content.take 64)
  ∃ dynsym dynstr, IsSection content eh shtDynsym (bytes ".dynsym") dynsym ∧
    IsSection content eh shtStrtab (bytes ".dynstr") dynstr ∧
    ∃ pre sym post,
      rows Elf64Sym.decode 24 (dynsym.size.toNat / 24)
        (part content dynsym.offset dynsym.size) = pre ++ sym :: post ∧
      sym.Named (part content dynstr.offset dynstr.size) symbol ∧
      (∀ s ∈ pre, ¬ s.Named (part content dynstr.offset dynstr.size) symbol) ∧
      size = sym.size ∧
      ∃ ph ∈ segments content eh, ph.Holds sym.value loc

/-! ### The accesses -/

/-- A count below the limit is read as it stands in the file. -/
lemma preadFull_safe {content : Bytes} {off sz : UInt64} (h : sz ≠ 0xffffffffffffffff) :
    Safe (preadFull content off sz) fun buf =>
      buf = part content off sz ∧ buf.length = sz.toNat ∧ sz.toNat ≤ maxRwCount := by
  rw [preadFull]
  split_ifs with hoff
  · simp only
    split_ifs with hlen
    · have hle : sz.toNat ≤ maxRwCount := by
        rw [List.length_take] at hlen
        omega
      rw [Nat.min_eq_left hle] at hlen ⊢
      exact ⟨rfl, hlen, hle⟩
    · trivial
  · trivial

lemma row_safe {α : Type} {decode : Bytes → α} {w i n : ℕ} {buf : Bytes} (hi : i < n)
    (hbuf : n * w ≤ buf.length) :
    Safe (row decode w buf i) fun r => (rows decode w n buf)[i]? = some r := by
  rw [row_eq decode (Nat.le_trans (Nat.mul_le_mul_right w hi) hbuf)]
  simp [Safe, rows, hi]

/-- The name of an entry is looked at within its string table. -/
lemma cstr_of_memchr {strtab : Bytes} {size name : UInt64} (hlen : strtab.length = size.toNat)
    (hname : name < size) :
    memchr strtab name.toNat (size - name).toNat = .ok (decide (0 ∈ strtab.drop name.toNat)) := by
  rw [UInt64.lt_iff_toNat_lt] at hname
  have hsub : (size - name).toNat = size.toNat - name.toNat := by
    rw [UInt64.toNat_sub]
    have := size.toNat_lt
    omega
  rw [memchr_eq (by omega), hsub, List.take_of_length_le (by simp; omega)]

/-! ### The program headers -/

lemma Elf64Phdr.holds_of_checks {ph : Elf64Phdr} {vaddr : UInt64} (hload : ph.type = ptLoad)
    (hexec : ph.flags &&& pfX ≠ 0) (hle : ph.vaddr ≤ vaddr)
    (hlt : vaddr - ph.vaddr < ph.filesz) (hwrap : ph.offset ≤ 0xffffffffffffffff - ph.filesz) :
    ph.Holds vaddr ⟨ph.offset + (vaddr - ph.vaddr), ph.offset, ph.offset + ph.filesz⟩ := by
  have hv := vaddr.toNat_lt
  have hf := ph.filesz.toNat_lt
  rw [UInt64.le_iff_toNat_le] at hle
  have hsub : (vaddr - ph.vaddr).toNat = vaddr.toNat - ph.vaddr.toNat := by
    rw [UInt64.toNat_sub]
    omega
  rw [UInt64.lt_iff_toNat_lt, hsub] at hlt
  have hmax : ph.offset.toNat + ph.filesz.toNat < 2 ^ 64 := by
    rw [UInt64.le_iff_toNat_le, UInt64.toNat_sub] at hwrap
    simp only [UInt64.reduceToNat] at hwrap
    omega
  have hend : (ph.offset + ph.filesz).toNat = ph.offset.toNat + ph.filesz.toNat := by
    rw [UInt64.toNat_add, Nat.mod_eq_of_lt hmax]
  have hoff : (ph.offset + (vaddr - ph.vaddr)).toNat =
      ph.offset.toNat + (vaddr.toNat - ph.vaddr.toNat) := by
    rw [UInt64.toNat_add, hsub, Nat.mod_eq_of_lt (by omega)]
  refine ⟨hload, hexec, hle, rfl, hend, ?_, ?_, ?_⟩ <;> dsimp only <;> omega

lemma phdrLoop_safe {phdrs : Bytes} {vaddr : UInt64} {n : ℕ} (hbuf : n * 56 ≤ phdrs.length)
    (is : List ℕ) (his : ∀ i ∈ is, i < n) :
    Safe (phdrLoop phdrs vaddr is) fun loc =>
      ∃ ph ∈ rows Elf64Phdr.decode 56 n phdrs, ph.Holds vaddr loc := by
  induction is with
  | nil => trivial
  | cons i is ih =>
    obtain ⟨hi, his⟩ := List.forall_mem_cons.mp his
    refine (row_safe hi hbuf).bind fun ph hph => ?_
    split_ifs with hkind hrange hwrap
    · exact ih his
    · exact ih his
    · exact ih his
    · simp only [Bool.or_eq_true, decide_eq_true_eq, not_or, not_not] at hkind hrange
      refine ⟨ph, List.mem_of_getElem? hph, Elf64Phdr.holds_of_checks hkind.1 hkind.2 ?_ ?_ ?_⟩
      · exact UInt64.not_lt.mp hrange.1
      · exact UInt64.not_le.mp hrange.2
      · exact UInt64.not_lt.mp hwrap

/-- The size of a table of at most `2048` records of `w ≤ 64` bytes does not overflow. -/
lemma toNat_mul_of_le {n w : UInt64} (hn : n.toNat ≤ 2048) (hw : w.toNat ≤ 64) :
    (n * w).toNat = n.toNat * w.toNat ∧ n * w ≠ 0xffffffffffffffff := by
  have hle : n.toNat * w.toNat ≤ 2048 * 64 := Nat.mul_le_mul hn hw
  have heq : (n * w).toNat = n.toNat * w.toNat := by
    rw [UInt64.toNat_mul, Nat.mod_eq_of_lt (by omega)]
  refine ⟨heq, fun hmax => ?_⟩
  rw [hmax] at heq
  simp only [UInt64.reduceToNat] at heq
  omega

lemma elfVaddrToFileOff_safe (alloc : ElfAlloc) (content : Bytes) (eh : Elf64Ehdr)
    (vaddr : UInt64) :
    Safe (elfVaddrToFileOff alloc content eh vaddr) fun loc =>
      ∃ ph ∈ segments content eh, ph.Holds vaddr loc := by
  refine safe_require.bind fun _ hnum => safe_require.bind fun _ _ => ?_
  simp only [Bool.not_eq_true', Bool.or_eq_false_iff, decide_eq_false_iff_not, not_not] at hnum
  have hle : eh.phnum.toNat ≤ 256 := UInt64.le_iff_toNat_le.mp (UInt64.not_lt.mp hnum.2)
  obtain ⟨hsize, hmax⟩ := toNat_mul_of_le (n := eh.phnum) (w := 56) (by omega) (by decide)
  refine (preadFull_safe hmax).bind fun phdrs hphdrs => ?_
  obtain ⟨rfl, hlen, -⟩ := hphdrs
  rw [hsize] at hlen
  exact phdrLoop_safe hlen.ge _ fun i hi => List.mem_range.mp hi

/-! ### The sections -/

lemma strcmp_name {strtab name : Bytes} {off : ℕ} (h : 0 ∈ strtab.drop off) (hname : 0 ∉ name) :
    strcmp strtab off name = .ok (decide (cstr strtab off = some name)) := by
  have hall : name.takeWhile (· ≠ 0) = name := by
    rw [List.takeWhile_eq_self_iff]
    intro x hx
    simpa using ne_of_mem_of_not_mem hx hname
  rw [strcmp_eq name h, hall]

lemma isNamed_eq {strtab name : Bytes} {sh : Elf64Shdr} (h : 0 ∈ strtab.drop sh.name.toNat)
    (hname : 0 ∉ name) (type : UInt64) :
    isNamed strtab sh type name =
      .ok (decide (sh.type = type ∧ cstr strtab sh.name.toNat = some name)) := by
  rw [isNamed, strcmp_name h hname]
  by_cases htype : sh.type = type <;> simp [htype]

/-- What is known of the sections found so far. -/
structure Found (shdrs : List Elf64Shdr) (shstrtab : Bytes)
    (found : Option Elf64Shdr × Option Elf64Shdr) : Prop where
  dynsym : ∀ sh, found.1 = some sh →
    sh ∈ shdrs ∧ sh.type = shtDynsym ∧ cstr shstrtab sh.name.toNat = some (bytes ".dynsym")
  dynstr : ∀ sh, found.2 = some sh →
    sh ∈ shdrs ∧ sh.type = shtStrtab ∧ cstr shstrtab sh.name.toNat = some (bytes ".dynstr")

lemma sectionLoop_safe {shdrs shstrtab : Bytes} {strSize : UInt64} {n : ℕ}
    (hbuf : n * 64 ≤ shdrs.length) (hstr : shstrtab.length = strSize.toNat) (is : List ℕ)
    (his : ∀ i ∈ is, i < n) (found : Option Elf64Shdr × Option Elf64Shdr)
    (hfound : Found (rows Elf64Shdr.decode 64 n shdrs) shstrtab found) :
    Safe (sectionLoop shdrs shstrtab strSize is found)
      (Found (rows Elf64Shdr.decode 64 n shdrs) shstrtab) := by
  induction is generalizing found with
  | nil => exact hfound
  | cons i is ih =>
    obtain ⟨hi, his⟩ := List.forall_mem_cons.mp his
    refine (row_safe hi hbuf).bind fun sh hsh => ?_
    have hmem := List.mem_of_getElem? hsh
    by_cases hname : strSize ≤ sh.name
    · rw [if_pos hname]
      exact ih his found hfound
    rw [if_neg hname, cstr_of_memchr hstr (UInt64.not_le.mp hname), ok_bind]
    by_cases hend : 0 ∈ shstrtab.drop sh.name.toNat
    · rw [decide_eq_true hend, Bool.not_true, if_neg Bool.false_ne_true,
        isNamed_eq hend (by decide), ok_bind]
      by_cases hdynsym : sh.type = shtDynsym ∧
          cstr shstrtab sh.name.toNat = some (bytes ".dynsym")
      · rw [if_pos (decide_eq_true hdynsym)]
        refine ih his _ ⟨fun sh' h => ?_, hfound.dynstr⟩
        cases h
        exact ⟨hmem, hdynsym⟩
      rw [decide_eq_false hdynsym, if_neg Bool.false_ne_true, isNamed_eq hend (by decide),
        ok_bind]
      by_cases hdynstr : sh.type = shtStrtab ∧
          cstr shstrtab sh.name.toNat = some (bytes ".dynstr")
      · rw [if_pos (decide_eq_true hdynstr)]
        refine ih his _ ⟨hfound.dynsym, fun sh' h => ?_⟩
        cases h
        exact ⟨hmem, hdynstr⟩
      · rw [decide_eq_false hdynstr, if_neg Bool.false_ne_true]
        exact ih his found hfound
    · rw [decide_eq_false hend, Bool.not_false, if_pos rfl]
      exact ih his found hfound

/-- The bound on a string table excludes the count that `pread` fails on unnoticed. -/
lemma ne_max_of_strtab {size : UInt64} (h : ¬ acElfMaxStrtab < size) :
    size ≠ 0xffffffffffffffff := by
  rintro rfl
  exact h (by decide)

lemma findSections_safe (alloc : ElfAlloc) (content : Bytes) {eh : Elf64Ehdr}
    (hnum : eh.shnum.toNat ≤ 2048) (hndx : eh.shstrndx < eh.shnum) :
    Safe (findSections alloc content eh) fun found =>
      (∀ sh, found.1 = some sh → IsSection content eh shtDynsym (bytes ".dynsym") sh) ∧
        ∀ sh, found.2 = some sh → IsSection content eh shtStrtab (bytes ".dynstr") sh := by
  obtain ⟨hsize, hmax⟩ := toNat_mul_of_le (n := eh.shnum) (w := 64) hnum (by decide)
  refine safe_require.bind fun _ _ => (preadFull_safe hmax).bind fun shdrs hshdrs => ?_
  obtain ⟨rfl, hlen, -⟩ := hshdrs
  rw [hsize] at hlen
  have hlt := UInt64.lt_iff_toNat_lt.mp hndx
  refine (row_safe hlt hlen.ge).bind fun shstr hshstr => safe_require.bind fun _ hstrsize => ?_
  simp only [Bool.not_eq_true', Bool.or_eq_false_iff, decide_eq_false_iff_not] at hstrsize
  refine safe_require.bind fun _ _ => ?_
  refine (preadFull_safe (ne_max_of_strtab hstrsize.2)).bind fun shstrtab hshstrtab => ?_
  obtain ⟨rfl, hstrlen, -⟩ := hshstrtab
  refine (sectionLoop_safe hlen.ge hstrlen _ (fun i hi => List.mem_range.mp hi) (none, none)
    ⟨by simp, by simp⟩).mono fun found hfound => ⟨fun sh hsh => ?_, fun sh hsh => ?_⟩
  · obtain ⟨hmem, htype, hcstr⟩ := hfound.dynsym sh hsh
    exact ⟨hmem, htype, shstr, hshstr, hcstr⟩
  · obtain ⟨hmem, htype, hcstr⟩ := hfound.dynstr sh hsh
    exact ⟨hmem, htype, shstr, hshstr, hcstr⟩

/-! ### The symbols -/

/-- What the loop has found: the first entry with the name, and where it is in the file. -/
def SymFound (content : Bytes) (eh : Elf64Ehdr) (syms : List Elf64Sym) (strtab symbol : Bytes)
    (r : AcElfLoc × UInt64) : Prop :=
  ∃ pre sym post, syms = pre ++ sym :: post ∧ sym.Named strtab symbol ∧
    (∀ s ∈ pre, ¬ s.Named strtab symbol) ∧ r.2 = sym.size ∧
    ∃ ph ∈ segments content eh, ph.Holds sym.value r.1

lemma SymFound.cons {content : Bytes} {eh : Elf64Ehdr} {syms : List Elf64Sym}
    {strtab symbol : Bytes} {r : AcElfLoc × UInt64}
    (h : SymFound content eh syms strtab symbol r) {s : Elf64Sym}
    (hs : ¬ s.Named strtab symbol) : SymFound content eh (s :: syms) strtab symbol r := by
  obtain ⟨pre, sym, post, rfl, hsym, hpre, hrest⟩ := h
  exact ⟨s :: pre, sym, post, rfl, hsym, List.forall_mem_cons.mpr ⟨hs, hpre⟩, hrest⟩

lemma symLoop_safe (alloc : ElfAlloc) (content : Bytes) (eh : Elf64Ehdr)
    {syms dynstrtab symbol : Bytes} {strSize : UInt64} {n : ℕ} (hbuf : n * 24 ≤ syms.length)
    (hstr : dynstrtab.length = strSize.toNat) (hsymbol : 0 ∉ symbol) (is : List ℕ)
    (his : ∀ i ∈ is, i < n) :
    Safe (symLoop alloc content eh syms dynstrtab strSize symbol is)
      (SymFound content eh (is.map fun i => Elf64Sym.decode ((syms.drop (i * 24)).take 24))
        dynstrtab symbol) := by
  induction is with
  | nil => trivial
  | cons i is ih =>
    obtain ⟨hi, his⟩ := List.forall_mem_cons.mp his
    rw [symLoop, row_eq _ (Nat.le_trans (Nat.mul_le_mul_right 24 hi) hbuf), ok_bind, List.map_cons]
    generalize Elf64Sym.decode ((syms.drop (i * 24)).take 24) = sym
    have hskip : ¬ sym.Named dynstrtab symbol →
        Safe (symLoop alloc content eh syms dynstrtab strSize symbol is)
          (SymFound content eh
            (sym :: is.map fun i => Elf64Sym.decode ((syms.drop (i * 24)).take 24))
            dynstrtab symbol) :=
      fun hnot => (ih his).mono fun r hr => hr.cons hnot
    by_cases hunnamed : (sym.name = 0 || strSize ≤ sym.name || sym.value = 0) = true
    · rw [if_pos hunnamed]
      refine hskip fun ⟨hname, hvalue, hcstr⟩ => ?_
      simp only [hname, hvalue, decide_false, Bool.false_or, Bool.or_false, decide_eq_true_eq,
        UInt64.le_iff_toNat_le] at hunnamed
      rw [cstr, List.drop_eq_nil_of_le (by omega)] at hcstr
      cases hcstr
    rw [if_neg hunnamed]
    simp only [Bool.or_eq_true, decide_eq_true_eq, not_or] at hunnamed
    obtain ⟨⟨hname, hlt⟩, hvalue⟩ := hunnamed
    rw [cstr_of_memchr hstr (UInt64.not_le.mp hlt), ok_bind]
    by_cases hend : 0 ∈ dynstrtab.drop sym.name.toNat
    · rw [decide_eq_true hend, Bool.not_true, if_neg Bool.false_ne_true,
        strcmp_name hend hsymbol, ok_bind]
      by_cases hsame : cstr dynstrtab sym.name.toNat = some symbol
      · -- the first entry of the name, whether or not its address can be translated
        rw [if_pos (decide_eq_true hsame)]
        refine (elfVaddrToFileOff_safe alloc content eh sym.value).map fun loc hloc => ?_
        exact ⟨[], sym, _, rfl, ⟨hname, hvalue, hsame⟩, by simp, rfl, hloc⟩
      · rw [decide_eq_false hsame, if_neg Bool.false_ne_true]
        exact hskip fun hnamed => hsame hnamed.2.2
    · rw [decide_eq_false hend, Bool.not_false, if_pos rfl]
      refine hskip fun ⟨_, _, hcstr⟩ => ?_
      rw [cstr, if_neg hend] at hcstr
      cases hcstr

lemma findSymbol_safe (alloc : ElfAlloc) (content : Bytes) (eh : Elf64Ehdr)
    (dynsym dynstr : Elf64Shdr) {symbol : Bytes} (hsymbol : 0 ∉ symbol) :
    Safe (findSymbol alloc content eh dynsym dynstr symbol)
      (SymFound content eh (rows Elf64Sym.decode 24 (dynsym.size.toNat / 24)
        (part content dynsym.offset dynsym.size)) (part content dynstr.offset dynstr.size)
        symbol) := by
  refine safe_require.bind fun _ hstr => safe_require.bind fun _ hnum =>
    safe_require.bind fun _ _ => ?_
  -- the bound on the number of entries excludes the count -1, though the number is cut to 32 bits
  have hmax : dynsym.size ≠ 0xffffffffffffffff := by
    intro hsize
    rw [hsize] at hnum
    revert hnum
    decide
  simp only [Bool.not_eq_true', Bool.or_eq_false_iff, decide_eq_false_iff_not] at hstr
  refine (preadFull_safe hmax).bind fun syms hsyms => ?_
  obtain ⟨rfl, hlen, hle⟩ := hsyms
  refine (preadFull_safe (ne_max_of_strtab hstr.2)).bind fun strtab hstrtab => ?_
  obtain ⟨rfl, hstrlen, -⟩ := hstrtab
  have hnsyms : (dynsym.size / 24).toUInt32.toNat = dynsym.size.toNat / 24 := by
    rw [UInt64.toNat_toUInt32, UInt64.toNat_div]
    simp only [UInt64.reduceToNat, maxRwCount] at hle ⊢
    omega
  rw [hnsyms]
  exact symLoop_safe alloc content eh (by omega) hstrlen hsymbol _ fun i hi => List.mem_range.mp hi

/-! ### The whole lookup -/

lemma elfFindSymbolOffset_safe (alloc : ElfAlloc) {symbol : Bytes} (hsymbol : 0 ∉ symbol)
    (content : Bytes) :
    Safe (elfFindSymbolOffset alloc symbol content) fun r => Located content symbol r.1 r.2 := by
  refine (preadFull_safe (by decide)).bind fun ident hident => ?_
  obtain ⟨rfl, -, -⟩ := hident
  refine safe_require.bind fun _ _ => safe_require.bind fun _ _ => ?_
  refine safe_require.bind fun _ hnum => ?_
  simp only [Bool.not_eq_true', Bool.or_eq_false_iff, decide_eq_false_iff_not, not_not] at hnum
  obtain ⟨⟨-, hle⟩, hndx⟩ := hnum
  have hshnum := UInt64.le_iff_toNat_le.mp (UInt64.not_lt.mp hle)
  have hsections := findSections_safe alloc content hshnum (UInt64.not_le.mp hndx)
  refine hsections.bind fun found hfound => ?_
  match found, hfound with
  | (some dynsym, some dynstr), ⟨hdynsym, hdynstr⟩ =>
    refine (findSymbol_safe alloc content _ dynsym dynstr hsymbol).mono fun r hr => ?_
    exact ⟨dynsym, dynstr, hdynsym dynsym rfl, hdynstr dynstr rfl, hr⟩
  | (some _, none), _ => trivial
  | (none, _), _ => trivial

lemma Located.lt_segEnd {content symbol : Bytes} {loc : AcElfLoc} {size : UInt64}
    (h : Located content symbol loc size) : loc.fileOff.toNat < loc.segEnd.toNat := by
  obtain ⟨_, _, _, _, _, _, _, _, _, _, _, ph, _, hholds⟩ := h
  exact hholds.lt_segEnd

/-- The length that is compared, before it is cut at the end of the segment. -/
lemma clamp_bounds (size : UInt64) :
    1 ≤ (if size = 0 then acHookCheckDefaultBytes
      else if size < acHookCheckMinBytes then acHookCheckMinBytes
      else if acHookCheckMaxBytes < size then acHookCheckMaxBytes else size).toNat ∧
    (if size = 0 then acHookCheckDefaultBytes
      else if size < acHookCheckMinBytes then acHookCheckMinBytes
      else if acHookCheckMaxBytes < size then acHookCheckMaxBytes else size).toNat ≤ 512 := by
  split_ifs with hzero hmin hmax
  · decide
  · decide
  · decide
  · have hlow := UInt64.le_iff_toNat_le.mp (UInt64.not_lt.mp hmin)
    have hhigh := UInt64.le_iff_toNat_le.mp (UInt64.not_lt.mp hmax)
    exact ⟨Nat.le_trans (by decide) hlow, hhigh⟩

lemma checklen_bounds {size : UInt64} {loc : AcElfLoc}
    (h : loc.fileOff.toNat < loc.segEnd.toNat) :
    1 ≤ (checklen size loc).toNat ∧ (checklen size loc).toNat ≤ 512 ∧
      loc.fileOff.toNat + (checklen size loc).toNat ≤ loc.segEnd.toNat := by
  obtain ⟨hlow, hhigh⟩ := clamp_bounds size
  have hsub : (loc.segEnd - loc.fileOff).toNat = loc.segEnd.toNat - loc.fileOff.toNat := by
    rw [UInt64.toNat_sub]
    have := loc.segEnd.toNat_lt
    omega
  rw [checklen]
  generalize (if size = 0 then acHookCheckDefaultBytes
    else if size < acHookCheckMinBytes then acHookCheckMinBytes
    else if acHookCheckMaxBytes < size then acHookCheckMaxBytes else size) = len at hlow hhigh ⊢
  split_ifs with hcut <;> rw [UInt64.lt_iff_toNat_lt, hsub] at hcut
  · rw [hsub]
    omega
  · omega

/-- No access of `elf_find_symbol_offset` or `elf_vaddr_to_file_off` leaves its buffer, whatever
the file says. When `load_render_reference` succeeds, the location is that of the first entry of
the symbol's name in an executable segment, and the compared bytes stay in the segment. -/
theorem loadRenderReference_located (alloc : ElfAlloc) (symbol : Bytes) (hsymbol : 0 ∉ symbol) :
    (∀ content, elfFindSymbolOffset alloc symbol content ≠ .error .fault) ∧
    (∀ content eh vaddr, elfVaddrToFileOff alloc content eh vaddr ≠ .error .fault) ∧
    ∀ file id ref,
      loadRenderReference (fun content => (elfFindSymbolOffset alloc symbol content).toOption)
        file id = some ref →
      ∃ f size, file = some f ∧ Located f.content symbol ref.loc size ∧
        1 ≤ ref.expected.length ∧ ref.expected.length ≤ acHookCheckMaxBytes.toNat ∧
        ref.loc.fileOff.toNat + ref.expected.length ≤ ref.loc.segEnd.toNat := by
  refine ⟨fun content => (elfFindSymbolOffset_safe alloc hsymbol content).ne_fault,
    fun content eh vaddr => (elfVaddrToFileOff_safe alloc content eh vaddr).ne_fault, ?_⟩
  intro file id ref h
  cases file with
  | none => cases h
  | some f =>
    simp only [loadRenderReference] at h
    split_ifs at h
    cases hfind : (elfFindSymbolOffset alloc symbol f.content).toOption with
    | none =>
      rw [hfind] at h
      cases h
    | some r =>
      rw [hfind] at h
      obtain ⟨loc, size⟩ := r
      obtain ⟨expected, hread, rfl⟩ := Option.map_eq_some_iff.mp h
      have hloc := (elfFindSymbolOffset_safe alloc hsymbol f.content).of_toOption hfind
      have hlen : expected.length = (checklen size loc).toNat := by
        rw [preadAll] at hread
        split_ifs at hread with hok
        cases hread
        exact hok.2
      refine ⟨f, size, rfl, hloc, ?_⟩
      rw [hlen]
      exact checklen_bounds hloc.lt_segEnd

/-- A number in `w` bytes. -/
def num (w n : ℕ) : Bytes := (List.range w).map fun i => UInt8.ofNat (n / 256 ^ i)

/-- A file of three sections, one symbol `f` and one segment. -/
def elfSample : Bytes :=
  [0x7f, 0x45, 0x4c, 0x46, 2, 1] ++ num 26 0 ++ num 8 323 ++ num 8 64 ++ num 6 0 ++
    num 2 56 ++ num 2 1 ++ num 2 64 ++ num 2 3 ++ num 2 2 ++
  -- `.dynsym`, `.dynstr` and the names of the sections
  (num 4 0 ++ num 4 11 ++ num 16 0 ++ num 8 272 ++ num 8 48 ++ num 16 0 ++ num 8 24) ++
  (num 4 8 ++ num 4 3 ++ num 16 0 ++ num 8 320 ++ num 8 3 ++ num 24 0) ++
  (num 4 0 ++ num 4 3 ++ num 16 0 ++ num 8 256 ++ num 8 16 ++ num 24 0) ++
  bytes ".dynsym" ++ [0] ++ bytes ".dynstr" ++ [0] ++
  -- the symbols, an empty one first, and their strings
  num 24 0 ++ (num 8 1 ++ num 8 0x10 ++ num 8 4) ++ [0, 102, 0] ++
  (num 4 1 ++ num 4 5 ++ num 8 379 ++ num 16 0 ++ num 8 0x20 ++ num 16 0) ++
  List.replicate 32 0x90

/-- The symbol of the sample is found, and 8 bytes of it are compared. -/
theorem loadRenderReference_located_sample :
    loadRenderReference
        (fun content => (elfFindSymbolOffset ⟨true, true, true, true, true⟩ [102] content).toOption)
        (some ⟨some ⟨true, ⟨1, 7⟩⟩, elfSample⟩) ⟨1, 7⟩ =
      some ⟨⟨395, 379, 411⟩, List.replicate 8 0x90⟩ ∧
    ∃ size, Located elfSample [102] ⟨395, 379, 411⟩ size := by
  have hload : loadRenderReference
      (fun content => (elfFindSymbolOffset ⟨true, true, true, true, true⟩ [102] content).toOption)
      (some ⟨some ⟨true, ⟨1, 7⟩⟩, elfSample⟩) ⟨1, 7⟩ =
        some ⟨⟨395, 379, 411⟩, List.replicate 8 0x90⟩ := by decide +kernel
  obtain ⟨f, size, hf, hloc, -⟩ :=
    (loadRenderReference_located _ [102] (by decide)).2.2 _ _ _ hload
  cases hf
  exact ⟨hload, size, hloc⟩

end Anticheat.Render
