import VisualDigest.Acceptance
import VisualDigest.UnknownRecords
import VisualDigest.SlidingWindow
import VisualDigest.Substitution
import VisualDigest.Sampling
import VisualDigest.Detection
import VisualDigest.Walk
import VisualDigest.ErrorTexts
import VisualDigest.Pipeline
