import Mathlib.Data.List.Sort
import BrowsercoreHttp2.Library.PrefixCode

/-!
# The HPACK Huffman table

The table of RFC 7541 Appendix B as the source lists it, indexed by symbol, and the fact everything else
rests on: its words form a prefix code. Row 256 is the end-of-string symbol, the 30 one-bits.
-/

namespace BrowsercoreHttp2

/-- A Huffman row: `code` occupies its lowest `bits`. -/
structure HuffmanRow where
  bits : Nat
  code : Nat
  symbol : Nat
  deriving DecidableEq

def huffmanTable : List HuffmanRow :=
  [ ⟨13, 0x00001ff8,   0⟩,
    ⟨23, 0x007fffd8,   1⟩,
    ⟨28, 0x0fffffe2,   2⟩,
    ⟨28, 0x0fffffe3,   3⟩,
    ⟨28, 0x0fffffe4,   4⟩,
    ⟨28, 0x0fffffe5,   5⟩,
    ⟨28, 0x0fffffe6,   6⟩,
    ⟨28, 0x0fffffe7,   7⟩,
    ⟨28, 0x0fffffe8,   8⟩,
    ⟨24, 0x00ffffea,   9⟩,
    ⟨30, 0x3ffffffc,  10⟩,
    ⟨28, 0x0fffffe9,  11⟩,
    ⟨28, 0x0fffffea,  12⟩,
    ⟨30, 0x3ffffffd,  13⟩,
    ⟨28, 0x0fffffeb,  14⟩,
    ⟨28, 0x0fffffec,  15⟩,
    ⟨28, 0x0fffffed,  16⟩,
    ⟨28, 0x0fffffee,  17⟩,
    ⟨28, 0x0fffffef,  18⟩,
    ⟨28, 0x0ffffff0,  19⟩,
    ⟨28, 0x0ffffff1,  20⟩,
    ⟨28, 0x0ffffff2,  21⟩,
    ⟨30, 0x3ffffffe,  22⟩,
    ⟨28, 0x0ffffff3,  23⟩,
    ⟨28, 0x0ffffff4,  24⟩,
    ⟨28, 0x0ffffff5,  25⟩,
    ⟨28, 0x0ffffff6,  26⟩,
    ⟨28, 0x0ffffff7,  27⟩,
    ⟨28, 0x0ffffff8,  28⟩,
    ⟨28, 0x0ffffff9,  29⟩,
    ⟨28, 0x0ffffffa,  30⟩,
    ⟨28, 0x0ffffffb,  31⟩,
    ⟨ 6, 0x00000014,  32⟩,
    ⟨10, 0x000003f8,  33⟩,
    ⟨10, 0x000003f9,  34⟩,
    ⟨12, 0x00000ffa,  35⟩,
    ⟨13, 0x00001ff9,  36⟩,
    ⟨ 6, 0x00000015,  37⟩,
    ⟨ 8, 0x000000f8,  38⟩,
    ⟨11, 0x000007fa,  39⟩,
    ⟨10, 0x000003fa,  40⟩,
    ⟨10, 0x000003fb,  41⟩,
    ⟨ 8, 0x000000f9,  42⟩,
    ⟨11, 0x000007fb,  43⟩,
    ⟨ 8, 0x000000fa,  44⟩,
    ⟨ 6, 0x00000016,  45⟩,
    ⟨ 6, 0x00000017,  46⟩,
    ⟨ 6, 0x00000018,  47⟩,
    ⟨ 5, 0x00000000,  48⟩,
    ⟨ 5, 0x00000001,  49⟩,
    ⟨ 5, 0x00000002,  50⟩,
    ⟨ 6, 0x00000019,  51⟩,
    ⟨ 6, 0x0000001a,  52⟩,
    ⟨ 6, 0x0000001b,  53⟩,
    ⟨ 6, 0x0000001c,  54⟩,
    ⟨ 6, 0x0000001d,  55⟩,
    ⟨ 6, 0x0000001e,  56⟩,
    ⟨ 6, 0x0000001f,  57⟩,
    ⟨ 7, 0x0000005c,  58⟩,
    ⟨ 8, 0x000000fb,  59⟩,
    ⟨15, 0x00007ffc,  60⟩,
    ⟨ 6, 0x00000020,  61⟩,
    ⟨12, 0x00000ffb,  62⟩,
    ⟨10, 0x000003fc,  63⟩,
    ⟨13, 0x00001ffa,  64⟩,
    ⟨ 6, 0x00000021,  65⟩,
    ⟨ 7, 0x0000005d,  66⟩,
    ⟨ 7, 0x0000005e,  67⟩,
    ⟨ 7, 0x0000005f,  68⟩,
    ⟨ 7, 0x00000060,  69⟩,
    ⟨ 7, 0x00000061,  70⟩,
    ⟨ 7, 0x00000062,  71⟩,
    ⟨ 7, 0x00000063,  72⟩,
    ⟨ 7, 0x00000064,  73⟩,
    ⟨ 7, 0x00000065,  74⟩,
    ⟨ 7, 0x00000066,  75⟩,
    ⟨ 7, 0x00000067,  76⟩,
    ⟨ 7, 0x00000068,  77⟩,
    ⟨ 7, 0x00000069,  78⟩,
    ⟨ 7, 0x0000006a,  79⟩,
    ⟨ 7, 0x0000006b,  80⟩,
    ⟨ 7, 0x0000006c,  81⟩,
    ⟨ 7, 0x0000006d,  82⟩,
    ⟨ 7, 0x0000006e,  83⟩,
    ⟨ 7, 0x0000006f,  84⟩,
    ⟨ 7, 0x00000070,  85⟩,
    ⟨ 7, 0x00000071,  86⟩,
    ⟨ 7, 0x00000072,  87⟩,
    ⟨ 8, 0x000000fc,  88⟩,
    ⟨ 7, 0x00000073,  89⟩,
    ⟨ 8, 0x000000fd,  90⟩,
    ⟨13, 0x00001ffb,  91⟩,
    ⟨19, 0x0007fff0,  92⟩,
    ⟨13, 0x00001ffc,  93⟩,
    ⟨14, 0x00003ffc,  94⟩,
    ⟨ 6, 0x00000022,  95⟩,
    ⟨15, 0x00007ffd,  96⟩,
    ⟨ 5, 0x00000003,  97⟩,
    ⟨ 6, 0x00000023,  98⟩,
    ⟨ 5, 0x00000004,  99⟩,
    ⟨ 6, 0x00000024, 100⟩,
    ⟨ 5, 0x00000005, 101⟩,
    ⟨ 6, 0x00000025, 102⟩,
    ⟨ 6, 0x00000026, 103⟩,
    ⟨ 6, 0x00000027, 104⟩,
    ⟨ 5, 0x00000006, 105⟩,
    ⟨ 7, 0x00000074, 106⟩,
    ⟨ 7, 0x00000075, 107⟩,
    ⟨ 6, 0x00000028, 108⟩,
    ⟨ 6, 0x00000029, 109⟩,
    ⟨ 6, 0x0000002a, 110⟩,
    ⟨ 5, 0x00000007, 111⟩,
    ⟨ 6, 0x0000002b, 112⟩,
    ⟨ 7, 0x00000076, 113⟩,
    ⟨ 6, 0x0000002c, 114⟩,
    ⟨ 5, 0x00000008, 115⟩,
    ⟨ 5, 0x00000009, 116⟩,
    ⟨ 6, 0x0000002d, 117⟩,
    ⟨ 7, 0x00000077, 118⟩,
    ⟨ 7, 0x00000078, 119⟩,
    ⟨ 7, 0x00000079, 120⟩,
    ⟨ 7, 0x0000007a, 121⟩,
    ⟨ 7, 0x0000007b, 122⟩,
    ⟨15, 0x00007ffe, 123⟩,
    ⟨11, 0x000007fc, 124⟩,
    ⟨14, 0x00003ffd, 125⟩,
    ⟨13, 0x00001ffd, 126⟩,
    ⟨28, 0x0ffffffc, 127⟩,
    ⟨20, 0x000fffe6, 128⟩,
    ⟨22, 0x003fffd2, 129⟩,
    ⟨20, 0x000fffe7, 130⟩,
    ⟨20, 0x000fffe8, 131⟩,
    ⟨22, 0x003fffd3, 132⟩,
    ⟨22, 0x003fffd4, 133⟩,
    ⟨22, 0x003fffd5, 134⟩,
    ⟨23, 0x007fffd9, 135⟩,
    ⟨22, 0x003fffd6, 136⟩,
    ⟨23, 0x007fffda, 137⟩,
    ⟨23, 0x007fffdb, 138⟩,
    ⟨23, 0x007fffdc, 139⟩,
    ⟨23, 0x007fffdd, 140⟩,
    ⟨23, 0x007fffde, 141⟩,
    ⟨24, 0x00ffffeb, 142⟩,
    ⟨23, 0x007fffdf, 143⟩,
    ⟨24, 0x00ffffec, 144⟩,
    ⟨24, 0x00ffffed, 145⟩,
    ⟨22, 0x003fffd7, 146⟩,
    ⟨23, 0x007fffe0, 147⟩,
    ⟨24, 0x00ffffee, 148⟩,
    ⟨23, 0x007fffe1, 149⟩,
    ⟨23, 0x007fffe2, 150⟩,
    ⟨23, 0x007fffe3, 151⟩,
    ⟨23, 0x007fffe4, 152⟩,
    ⟨21, 0x001fffdc, 153⟩,
    ⟨22, 0x003fffd8, 154⟩,
    ⟨23, 0x007fffe5, 155⟩,
    ⟨22, 0x003fffd9, 156⟩,
    ⟨23, 0x007fffe6, 157⟩,
    ⟨23, 0x007fffe7, 158⟩,
    ⟨24, 0x00ffffef, 159⟩,
    ⟨22, 0x003fffda, 160⟩,
    ⟨21, 0x001fffdd, 161⟩,
    ⟨20, 0x000fffe9, 162⟩,
    ⟨22, 0x003fffdb, 163⟩,
    ⟨22, 0x003fffdc, 164⟩,
    ⟨23, 0x007fffe8, 165⟩,
    ⟨23, 0x007fffe9, 166⟩,
    ⟨21, 0x001fffde, 167⟩,
    ⟨23, 0x007fffea, 168⟩,
    ⟨22, 0x003fffdd, 169⟩,
    ⟨22, 0x003fffde, 170⟩,
    ⟨24, 0x00fffff0, 171⟩,
    ⟨21, 0x001fffdf, 172⟩,
    ⟨22, 0x003fffdf, 173⟩,
    ⟨23, 0x007fffeb, 174⟩,
    ⟨23, 0x007fffec, 175⟩,
    ⟨21, 0x001fffe0, 176⟩,
    ⟨21, 0x001fffe1, 177⟩,
    ⟨22, 0x003fffe0, 178⟩,
    ⟨21, 0x001fffe2, 179⟩,
    ⟨23, 0x007fffed, 180⟩,
    ⟨22, 0x003fffe1, 181⟩,
    ⟨23, 0x007fffee, 182⟩,
    ⟨23, 0x007fffef, 183⟩,
    ⟨20, 0x000fffea, 184⟩,
    ⟨22, 0x003fffe2, 185⟩,
    ⟨22, 0x003fffe3, 186⟩,
    ⟨22, 0x003fffe4, 187⟩,
    ⟨23, 0x007ffff0, 188⟩,
    ⟨22, 0x003fffe5, 189⟩,
    ⟨22, 0x003fffe6, 190⟩,
    ⟨23, 0x007ffff1, 191⟩,
    ⟨26, 0x03ffffe0, 192⟩,
    ⟨26, 0x03ffffe1, 193⟩,
    ⟨20, 0x000fffeb, 194⟩,
    ⟨19, 0x0007fff1, 195⟩,
    ⟨22, 0x003fffe7, 196⟩,
    ⟨23, 0x007ffff2, 197⟩,
    ⟨22, 0x003fffe8, 198⟩,
    ⟨25, 0x01ffffec, 199⟩,
    ⟨26, 0x03ffffe2, 200⟩,
    ⟨26, 0x03ffffe3, 201⟩,
    ⟨26, 0x03ffffe4, 202⟩,
    ⟨27, 0x07ffffde, 203⟩,
    ⟨27, 0x07ffffdf, 204⟩,
    ⟨26, 0x03ffffe5, 205⟩,
    ⟨24, 0x00fffff1, 206⟩,
    ⟨25, 0x01ffffed, 207⟩,
    ⟨19, 0x0007fff2, 208⟩,
    ⟨21, 0x001fffe3, 209⟩,
    ⟨26, 0x03ffffe6, 210⟩,
    ⟨27, 0x07ffffe0, 211⟩,
    ⟨27, 0x07ffffe1, 212⟩,
    ⟨26, 0x03ffffe7, 213⟩,
    ⟨27, 0x07ffffe2, 214⟩,
    ⟨24, 0x00fffff2, 215⟩,
    ⟨21, 0x001fffe4, 216⟩,
    ⟨21, 0x001fffe5, 217⟩,
    ⟨26, 0x03ffffe8, 218⟩,
    ⟨26, 0x03ffffe9, 219⟩,
    ⟨28, 0x0ffffffd, 220⟩,
    ⟨27, 0x07ffffe3, 221⟩,
    ⟨27, 0x07ffffe4, 222⟩,
    ⟨27, 0x07ffffe5, 223⟩,
    ⟨20, 0x000fffec, 224⟩,
    ⟨24, 0x00fffff3, 225⟩,
    ⟨20, 0x000fffed, 226⟩,
    ⟨21, 0x001fffe6, 227⟩,
    ⟨22, 0x003fffe9, 228⟩,
    ⟨21, 0x001fffe7, 229⟩,
    ⟨21, 0x001fffe8, 230⟩,
    ⟨23, 0x007ffff3, 231⟩,
    ⟨22, 0x003fffea, 232⟩,
    ⟨22, 0x003fffeb, 233⟩,
    ⟨25, 0x01ffffee, 234⟩,
    ⟨25, 0x01ffffef, 235⟩,
    ⟨24, 0x00fffff4, 236⟩,
    ⟨24, 0x00fffff5, 237⟩,
    ⟨26, 0x03ffffea, 238⟩,
    ⟨23, 0x007ffff4, 239⟩,
    ⟨26, 0x03ffffeb, 240⟩,
    ⟨27, 0x07ffffe6, 241⟩,
    ⟨26, 0x03ffffec, 242⟩,
    ⟨26, 0x03ffffed, 243⟩,
    ⟨27, 0x07ffffe7, 244⟩,
    ⟨27, 0x07ffffe8, 245⟩,
    ⟨27, 0x07ffffe9, 246⟩,
    ⟨27, 0x07ffffea, 247⟩,
    ⟨27, 0x07ffffeb, 248⟩,
    ⟨28, 0x0ffffffe, 249⟩,
    ⟨27, 0x07ffffec, 250⟩,
    ⟨27, 0x07ffffed, 251⟩,
    ⟨27, 0x07ffffee, 252⟩,
    ⟨27, 0x07ffffef, 253⟩,
    ⟨27, 0x07fffff0, 254⟩,
    ⟨26, 0x03ffffee, 255⟩,
    ⟨30, 0x3fffffff, 256⟩ ]

/-- The word a row stands for. -/
def HuffmanRow.word (row : HuffmanRow) : List Bool := bitsOf row.bits row.code

theorem huffmanTable_symbols : huffmanTable.map HuffmanRow.symbol = List.range 257 := by decide +kernel

theorem huffmanTable_bounds : ∀ row ∈ huffmanTable, 5 ≤ row.bits ∧ row.bits ≤ 30 ∧ row.code < 2 ^ row.bits := by
  decide +kernel

/-- The table sorted by the words left-aligned in 30 bits. -/
def huffmanSorted : List HuffmanRow :=
  huffmanTable.insertionSort fun row row' => wordFirst 30 row.bits row.code ≤ wordFirst 30 row'.bits row'.code

theorem huffmanSorted_intervals : sortedIntervals 30 HuffmanRow.bits HuffmanRow.code huffmanSorted = true := by
  decide +kernel

def huffmanCode : PrefixCode HuffmanRow :=
  .ofIntervals 30 HuffmanRow.bits HuffmanRow.code huffmanTable huffmanSorted (List.perm_insertionSort _ _)
    huffmanSorted_intervals
    (fun row hrow => by
      have := huffmanTable_bounds row hrow
      omega)
    (fun row hrow => (huffmanTable_bounds row hrow).2.2)

@[simp] theorem huffmanCode_rows : huffmanCode.rows = huffmanTable := rfl

@[simp] theorem huffmanCode_word (row : HuffmanRow) : huffmanCode.word row = row.word := rfl

@[simp] theorem HuffmanRow.word_length (row : HuffmanRow) : row.word.length = row.bits := bitsOf_length _ _

theorem HuffmanRow.symbol_of_getElem? {i : Nat} {row : HuffmanRow} (h : huffmanTable[i]? = some row) : row.symbol = i := by
  have hmap := congrArg (fun l : List Nat => l[i]?) huffmanTable_symbols
  simp only [List.getElem?_map, h, Option.map_some] at hmap
  have hi : i < 257 := by
    have hlen := (List.getElem?_eq_some_iff.mp h).1
    have hsize := congrArg List.length huffmanTable_symbols
    simp only [List.length_map, List.length_range] at hsize
    omega
  rw [List.getElem?_range hi] at hmap
  exact Option.some.inj hmap

theorem HuffmanRow.getElem?_symbol {row : HuffmanRow} (h : row ∈ huffmanTable) : huffmanTable[row.symbol]? = some row := by
  obtain ⟨i, hi, rfl⟩ := List.mem_iff_getElem.mp h
  rw [HuffmanRow.symbol_of_getElem? (List.getElem?_eq_getElem hi), List.getElem?_eq_getElem hi]

end BrowsercoreHttp2
