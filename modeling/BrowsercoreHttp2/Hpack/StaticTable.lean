/-!
# The HPACK static table

The table as the source lists it. Entries 8 to 14 carry the name `status`.
-/

namespace BrowsercoreHttp2

structure StaticEntry where
  name : String
  value : String
  deriving DecidableEq

def staticTable : List StaticEntry :=
  [ ⟨":authority", ""⟩,
    ⟨":method", "GET"⟩,
    ⟨":method", "POST"⟩,
    ⟨":path", "/"⟩,
    ⟨":path", "/index.html"⟩,
    ⟨":scheme", "http"⟩,
    ⟨":scheme", "https"⟩,
    ⟨"status", "200"⟩,
    ⟨"status", "204"⟩,
    ⟨"status", "206"⟩,
    ⟨"status", "304"⟩,
    ⟨"status", "400"⟩,
    ⟨"status", "404"⟩,
    ⟨"status", "500"⟩,
    ⟨"accept-charset", ""⟩,
    ⟨"accept-encoding", "gzip, deflate"⟩,
    ⟨"accept-language", ""⟩,
    ⟨"accept-ranges", ""⟩,
    ⟨"accept", ""⟩,
    ⟨"access-control-allow-origin", ""⟩,
    ⟨"age", ""⟩,
    ⟨"allow", ""⟩,
    ⟨"authorization", ""⟩,
    ⟨"cache-control", ""⟩,
    ⟨"content-disposition", ""⟩,
    ⟨"content-encoding", ""⟩,
    ⟨"content-language", ""⟩,
    ⟨"content-length", ""⟩,
    ⟨"content-location", ""⟩,
    ⟨"content-range", ""⟩,
    ⟨"content-type", ""⟩,
    ⟨"cookie", ""⟩,
    ⟨"date", ""⟩,
    ⟨"etag", ""⟩,
    ⟨"expect", ""⟩,
    ⟨"expires", ""⟩,
    ⟨"from", ""⟩,
    ⟨"host", ""⟩,
    ⟨"if-match", ""⟩,
    ⟨"if-modified-since", ""⟩,
    ⟨"if-none-match", ""⟩,
    ⟨"if-range", ""⟩,
    ⟨"if-unmodified-since", ""⟩,
    ⟨"last-modified", ""⟩,
    ⟨"link", ""⟩,
    ⟨"location", ""⟩,
    ⟨"max-forwards", ""⟩,
    ⟨"proxy-authenticate", ""⟩,
    ⟨"proxy-authorization", ""⟩,
    ⟨"range", ""⟩,
    ⟨"referer", ""⟩,
    ⟨"refresh", ""⟩,
    ⟨"retry-after", ""⟩,
    ⟨"server", ""⟩,
    ⟨"set-cookie", ""⟩,
    ⟨"strict-transport-security", ""⟩,
    ⟨"transfer-encoding", ""⟩,
    ⟨"user-agent", ""⟩,
    ⟨"vary", ""⟩,
    ⟨"via", ""⟩,
    ⟨"www-authenticate", ""⟩ ]

def staticTableLength : Nat := staticTable.length

/-- The fixed cost of an entry, on top of its octets. -/
def tableEntryOverhead : Nat := 32

@[simp] theorem staticTableLength_eq : staticTableLength = 61 := by decide

end BrowsercoreHttp2
