import ModExplain.Fallback
import ModExplain.Sentinel
import ModExplain.Lengths
import ModExplain.PlatformHistory
import ModExplain.Normalize
import ModExplain.Ancestors
import ModExplain.Directives
import ModExplain.Footprint
import ModExplain.Races
import ModExplain.Completeness
import ModExplain.ReadBack
import ModExplain.Parents
import ModExplain.Bytes
import ModExplain.Moments
