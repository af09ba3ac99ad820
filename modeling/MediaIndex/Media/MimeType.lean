import MediaIndex.Path.Basic
import MediaIndex.Text.LowerCase

/-!
# Media types by extension

The media type of a file is guessed from the extension of its name, in small letters: from the table
of the catalog itself first, then from the registered types, then from common names that are not
registered. A packed archive counts as what it packs.
-/

namespace MediaIndex.Media

abbrev TypeTable := List (String × List String)

def TypeTable.type? (table : TypeTable) (extension : String) : Option String :=
  (table.find? fun row => row.2.contains extension).map (·.1)

/-- Types that the catalog needs and the registered ones lack or give otherwise. -/
def catalogTypes : TypeTable := [
    ("audio/mpeg", ["mp3"]),
    ("audio/flac", ["flac"]),
    ("audio/mp4", ["m4a"]),
    ("audio/aac", ["aac"]),
    ("audio/ogg", ["ogg", "oga", "opus"]),
    ("audio/x-ms-wma", ["wma"]),
    ("audio/amr", ["amr"]),
    ("audio/midi", ["mid", "midi"]),
    ("audio/x-mpegurl", ["m3u"]),
    ("application/vnd.apple.mpegurl", ["m3u8"]),
    ("audio/x-scpls", ["pls"]),
    ("application/vnd.ms-wpl", ["wpl"]),
    ("video/x-matroska", ["mkv"]),
    ("video/webm", ["webm"]),
    ("video/3gpp", ["3gp"]),
    ("video/mp4", ["m4v"]),
    ("video/mp2t", ["mts", "m2ts"]),
    ("image/heic", ["heic"]),
    ("image/heif", ["heif"]),
    ("image/webp", ["webp"]),
    ("image/x-adobe-dng", ["dng"]),
    ("image/x-canon-cr2", ["cr2"]),
    ("image/x-nikon-nef", ["nef"]),
    ("image/x-sony-arw", ["arw"])]

/-- The types that are registered on every machine. A machine can list more of them in files of its
own; those are taken to be empty. -/
def registeredTypes : TypeTable := [
    ("application/javascript", ["js", "mjs"]),
    ("application/json", ["json"]),
    ("application/manifest+json", ["webmanifest"]),
    ("application/msword", ["doc", "dot", "wiz"]),
    ("application/n-quads", ["nq"]),
    ("application/n-triples", ["nt"]),
    ("application/octet-stream", ["bin", "a", "dll", "exe", "o", "obj", "so"]),
    ("application/oda", ["oda"]),
    ("application/pdf", ["pdf"]),
    ("application/pkcs7-mime", ["p7c"]),
    ("application/postscript", ["ps", "ai", "eps"]),
    ("application/trig", ["trig"]),
    ("application/vnd.apple.mpegurl", ["m3u", "m3u8"]),
    ("application/vnd.ms-excel", ["xls", "xlb"]),
    ("application/vnd.ms-powerpoint", ["ppt", "pot", "ppa", "pps", "pwz"]),
    ("application/wasm", ["wasm"]),
    ("application/x-bcpio", ["bcpio"]),
    ("application/x-cpio", ["cpio"]),
    ("application/x-csh", ["csh"]),
    ("application/x-dvi", ["dvi"]),
    ("application/x-gtar", ["gtar"]),
    ("application/x-hdf", ["hdf"]),
    ("application/x-hdf5", ["h5"]),
    ("application/x-latex", ["latex"]),
    ("application/x-mif", ["mif"]),
    ("application/x-netcdf", ["cdf", "nc"]),
    ("application/x-pkcs12", ["p12", "pfx"]),
    ("application/x-pn-realaudio", ["ram"]),
    ("application/x-python-code", ["pyc", "pyo"]),
    ("application/x-sh", ["sh"]),
    ("application/x-shar", ["shar"]),
    ("application/x-shockwave-flash", ["swf"]),
    ("application/x-sv4cpio", ["sv4cpio"]),
    ("application/x-sv4crc", ["sv4crc"]),
    ("application/x-tar", ["tar"]),
    ("application/x-tcl", ["tcl"]),
    ("application/x-tex", ["tex"]),
    ("application/x-texinfo", ["texi", "texinfo"]),
    ("application/x-troff", ["roff", "t", "tr"]),
    ("application/x-troff-man", ["man"]),
    ("application/x-troff-me", ["me"]),
    ("application/x-troff-ms", ["ms"]),
    ("application/x-ustar", ["ustar"]),
    ("application/x-wais-source", ["src"]),
    ("application/xml", ["xsl", "rdf", "wsdl", "xpdl"]),
    ("application/zip", ["zip"]),
    ("audio/3gpp", ["3gp", "3gpp"]),
    ("audio/3gpp2", ["3g2", "3gpp2"]),
    ("audio/aac", ["aac", "adts", "loas", "ass"]),
    ("audio/basic", ["au", "snd"]),
    ("audio/mpeg", ["mp3", "mp2"]),
    ("audio/opus", ["opus"]),
    ("audio/x-aiff", ["aif", "aifc", "aiff"]),
    ("audio/x-pn-realaudio", ["ra"]),
    ("audio/x-wav", ["wav"]),
    ("image/avif", ["avif"]),
    ("image/bmp", ["bmp"]),
    ("image/gif", ["gif"]),
    ("image/ief", ["ief"]),
    ("image/jpeg", ["jpg", "jpe", "jpeg"]),
    ("image/heic", ["heic"]),
    ("image/heif", ["heif"]),
    ("image/png", ["png"]),
    ("image/svg+xml", ["svg"]),
    ("image/tiff", ["tiff", "tif"]),
    ("image/vnd.microsoft.icon", ["ico"]),
    ("image/x-cmu-raster", ["ras"]),
    ("image/x-portable-anymap", ["pnm"]),
    ("image/x-portable-bitmap", ["pbm"]),
    ("image/x-portable-graymap", ["pgm"]),
    ("image/x-portable-pixmap", ["ppm"]),
    ("image/x-rgb", ["rgb"]),
    ("image/x-xbitmap", ["xbm"]),
    ("image/x-xpixmap", ["xpm"]),
    ("image/x-xwindowdump", ["xwd"]),
    ("message/rfc822", ["eml", "mht", "mhtml", "nws"]),
    ("text/css", ["css"]),
    ("text/csv", ["csv"]),
    ("text/html", ["html", "htm"]),
    ("text/n3", ["n3"]),
    ("text/plain", ["txt", "bat", "c", "h", "ksh", "pl", "srt"]),
    ("text/richtext", ["rtx"]),
    ("text/tab-separated-values", ["tsv"]),
    ("text/vtt", ["vtt"]),
    ("text/x-python", ["py"]),
    ("text/x-setext", ["etx"]),
    ("text/x-sgml", ["sgm", "sgml"]),
    ("text/x-vcard", ["vcf"]),
    ("text/xml", ["xml"]),
    ("video/mp4", ["mp4"]),
    ("video/mpeg", ["mpeg", "m1v", "mpa", "mpe", "mpg"]),
    ("video/quicktime", ["mov", "qt"]),
    ("video/webm", ["webm"]),
    ("video/x-msvideo", ["avi"]),
    ("video/x-sgi-movie", ["movie"])]

def commonTypes : TypeTable := [
    ("application/rtf", ["rtf"]),
    ("audio/midi", ["midi", "mid"]),
    ("image/jpg", ["jpg"]),
    ("image/pict", ["pict", "pct", "pic"]),
    ("image/webp", ["webp"]),
    ("text/xul", ["xul"])]

def packedExtensions : List (String × String) :=
  [("svgz", "svg"), ("tgz", "tar"), ("taz", "tar"), ("tz", "tar"), ("tbz2", "tar"), ("txz", "tar")]

def typeOfExtension? (extension : String) : Option String :=
  let unpacked := (packedExtensions.lookup extension).getD extension
  catalogTypes.type? extension <|> registeredTypes.type? unpacked <|> commonTypes.type? unpacked

/-- The media type guessed from a file name. A name without extension, or with an empty one, has
none. -/
def guessType? (fileName : String) : Option String :=
  match Path.afterLastDot? fileName with
  | none | some "" => none
  | some extension => typeOfExtension? (Text.lowercase extension)

end MediaIndex.Media
